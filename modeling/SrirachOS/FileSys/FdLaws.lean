import SrirachOS.FileSys.FdLog
import Mathlib.Data.Finset.Card

/-!
# What Opens and Closes Promise

Four laws about the descriptors of a process, each for every run from any memory and for every process
that has been created in it.

- `open_takes_lowest`: which descriptor an open takes, and that it leaves the others,
- `fds_balance_iff`: opens and closes balance as long as no rtc is closed,
- `open_starts_iff`: an open starts at the beginning unless it takes over the position of the
  directory,
- `open_refused_iff`: an open of a file is refused wrongly when a descriptor that is no file carries
  its inode number.
-/

namespace SrirachOS

open Foundation FsProg

/-! ## The descriptor of an open -/

/-- The operation table for a type of directory entry. -/
def tableOf : Int → Option FOps
  | 0 => some .rtc
  | 1 => some .dir
  | 2 => some .file
  | _ => none

/-- An open that is not refused is of an entry with a table. -/
theorem entry_of_not_refused {img : Image} {filename : Option CStr} {s : FsState}
    (h : refused img filename s = false) :
    ∃ (name : CStr) (index : Nat), filename = some name ∧ resolved img name = some index ∧
      getFiletype img filename = img.filetype index ∧
      tableOf (img.filetype index) = some ((openTable img filename).getD .rtc) := by
  cases filename with
  | none => cases h
  | some name =>
    have htype := getFiletype_resolved img name
    have hrefused := refused_some img name s
    have htable := openTable_some img name
    rw [h] at hrefused
    cases hres : resolved img name with
    | none =>
      -- a name that is not found has no type
      have hnone : getFiletype img (some name) = -1 := by
        rw [htype, hres]
        split <;> rfl
      rw [hnone] at hrefused
      cases hrefused
    | some index =>
      rw [hres, Option.map_some, Option.getD_some] at htype
      by_cases hempty : name.text = []
      · rw [if_pos hempty] at htype
        rw [htype] at hrefused
        cases hrefused
      rw [if_neg hempty] at htype
      refine ⟨name, index, rfl, hres, htype, ?_⟩
      rw [htable, ← htype]
      generalize getFiletype img (some name) = filetype at hrefused
      split at hrefused
      · rfl
      · rfl
      · rfl
      · cases hrefused

/-- **A fresh descriptor**: after any run, an open that returns a descriptor returns the lowest free one,
from 2 on; it is then occupied, with the table for the type of the entry of that name, and the other
seven are as they were. -/
theorem open_takes_lowest (img : Image) (s : FsState) (es : List FsEvent) (filename : Option CStr) :
    let c := run (fdStep img) (s, noLogs) es
    let p := c.1.mainProcess
    let opened := (systemOpen img filename).run accessSem c.1
    c.2 p ≠ none → 0 ≤ opened.1 →
    2 ≤ opened.1 ∧ opened.1 ≤ 7 ∧ (c.1.fdt p opened.1).flags = 0 ∧
    (∀ i, 0 ≤ i → i < opened.1 → (c.1.fdt p i).flags ≠ 0) ∧
    (opened.2.fdt p opened.1).flags ≠ 0 ∧
    (∃ (name : CStr) (index : Nat), filename = some name ∧ index < 63 ∧
      img.entryName index = name.text ∧ (∀ j : Nat, j < index → img.entryName j ≠ name.text) ∧
      tableOf (img.filetype index) = some (opened.2.fdt p opened.1).fOps) ∧
    ∀ i, 0 ≤ i → i < 8 → i ≠ opened.1 → opened.2.fdt p i = c.1.fdt p i := by
  intro c p opened hcreated hret
  obtain ⟨log, hlog⟩ := Option.ne_none_iff_exists'.mp hcreated
  have hstd : StdOpen c.1 p := (logsAgree_run img s es p log hlog).stdOpen
  have hexact : opened = _ := systemOpen_exact img filename hstd
  -- the closed form of `system_open` says when it fails, and which descriptor it takes
  cases hrefused : refused img filename c.1 with
  | true =>
    rw [hrefused, if_pos rfl] at hexact
    rw [hexact] at hret
    omega
  | false =>
    rw [hrefused, if_neg Bool.false_ne_true] at hexact
    cases hfree : c.1.freeFd with
    | none =>
      rw [hfree] at hexact
      rw [hexact] at hret
      dsimp only at hret
      omega
    | some fd =>
      rw [hfree] at hexact
      have hrange := firstFree_range hfree
      rw [hexact]
      dsimp only
      have hself : ((c.1.took img filename fd).fdt p fd) = occupy img filename (c.1.fdt p fd) :=
        took_fdt_self c.1 img filename fd
      -- the lowest is that of the search, which begins behind the descriptors of the terminal
      refine ⟨hrange.1, by omega, firstFree_free hfree, ?_, ?_, ?_, ?_⟩
      · intro i h0 hi
        by_cases h2 : i < 2
        · exact ((logsAgree_run img s es p log hlog).std i h0 h2).1
        · exact firstFree_lowest hfree (by omega) hi
      · rw [hself, occupy_flags]
        decide
      · obtain ⟨name, index, hname, hres, -, htable⟩ := entry_of_not_refused hrefused
        obtain ⟨hlt, htext, -, hfirst⟩ := resolved_eq_some_iff.mp hres
        rw [hself, occupy_fOps]
        exact ⟨name, index, hname, hlt, htext.symm, fun j hj heq => hfirst j hj heq.symm, htable⟩
      · intro i _ _ hi
        exact took_fdt_other c.1 img filename fun hloc => hi hloc.2

/-- The directory is open at 2 when a file is opened. -/
theorem open_takes_lowest_sample :
    let c := run (fdStep sampleImage) (sampleFs, noLogs) [.create 0, .openFile (some [46])]
    let opened := (systemOpen sampleImage (some [97])).run accessSem c.1
    2 ≤ opened.1 ∧ opened.2.fdt c.1.mainProcess 2 = c.1.fdt c.1.mainProcess 2 := by
  have h := open_takes_lowest sampleImage sampleFs [.create 0, .openFile (some [46])] (some [97])
    (by decide +kernel) (by decide +kernel)
  exact ⟨h.1, h.2.2.2.2.2.2 2 (by decide) (by decide) (by decide +kernel)⟩

/-- A small image with a directory, the rtc and a file. -/
def rtcBytes : List (Nat × UInt8) :=
  [(0, 3), (4, 2), (8, 1),
    (64, 46), (96, 1),
    (128, 114), (129, 116), (130, 99),
    (192, 97), (224, 2), (228, 1),
    (8192, 1),
    (12288, 120)]

def rtcImage : Image := fun a => (rtcBytes.lookup a).getD 0

/-! ## Opens and closes -/

/-- The descriptors that `open` hands out. -/
def descriptors : Finset Int := {2, 3, 4, 5, 6, 7}

theorem mem_descriptors {fd : Int} : fd ∈ descriptors ↔ 2 ≤ fd ∧ fd < 8 := by
  unfold descriptors
  simp only [Finset.mem_insert, Finset.mem_singleton]
  omega

/-- The number of occupied descriptors from 2 on. -/
def occupied (s : FsState) (p : Int) : Nat :=
  (descriptors.filter fun fd => (s.fdt p fd).flags ≠ 0).card

theorem occupied_congr (s s' : FsState) {p : Int}
    (h : ∀ i, 2 ≤ i → i < 8 → ((s'.fdt p i).flags ≠ 0 ↔ (s.fdt p i).flags ≠ 0)) :
    occupied s' p = occupied s p := by
  unfold occupied
  congr 1
  apply Finset.filter_congr
  intro i hi
  obtain ⟨h2, h8⟩ := mem_descriptors.mp hi
  exact h i h2 h8

/-- One more descriptor is occupied. -/
theorem occupied_take (s s' : FsState) {p fd : Int} (h2 : 2 ≤ fd) (h8 : fd < 8)
    (hfree : (s.fdt p fd).flags = 0) (hused : (s'.fdt p fd).flags ≠ 0)
    (hother : ∀ i, 2 ≤ i → i ≠ fd → s'.fdt p i = s.fdt p i) :
    occupied s' p = occupied s p + 1 := by
  -- the occupied descriptors are those of before and `fd`
  have hinsert : descriptors.filter (fun i => (s'.fdt p i).flags ≠ 0) =
      insert fd (descriptors.filter fun i => (s.fdt p i).flags ≠ 0) := by
    ext i
    simp only [Finset.mem_filter, mem_descriptors, Finset.mem_insert]
    by_cases hi : i = fd
    · rw [hi]
      exact ⟨fun _ => .inl rfl, fun _ => ⟨⟨h2, h8⟩, hused⟩⟩
    · constructor
      · rintro ⟨hrange, hflags⟩
        rw [hother i hrange.1 hi] at hflags
        exact .inr ⟨hrange, hflags⟩
      · rintro (heq | ⟨hrange, hflags⟩)
        · exact absurd heq hi
        · rw [hother i hrange.1 hi]
          exact ⟨hrange, hflags⟩
  unfold occupied
  rw [hinsert, Finset.card_insert_of_notMem]
  intro hmem
  exact (Finset.mem_filter.mp hmem).2 hfree

/-- Nothing is occupied: the descriptors are free. -/
theorem occupied_eq_zero {s : FsState} {p : Int} :
    occupied s p = 0 ↔ ∀ i, 2 ≤ i → i < 8 → (s.fdt p i).flags = 0 := by
  unfold occupied
  rw [Finset.card_eq_zero, Finset.filter_eq_empty_iff]
  constructor
  · intro h i h2 h8
    exact not_not.mp (h (mem_descriptors.mpr ⟨h2, h8⟩))
  · intro h i hi
    obtain ⟨h2, h8⟩ := mem_descriptors.mp hi
    exact not_not.mpr (h i h2 h8)

/-- Occupied descriptors are opens less closes. -/
def BalancedAt (s : FsState) (p : Int) (log : FdLog) : Prop :=
  (occupied s p : Int) = log.opens - log.closes

/-- A descriptor is released. -/
theorem BalancedAt.release {s : FsState} {log : FdLog} (hbal : BalancedAt s s.mainProcess log) {fd : Int}
    (h2 : 2 ≤ fd) (h8 : fd < 8) (hused : (s.fdt s.mainProcess fd).flags ≠ 0) {f : Fdt → Fdt}
    (hf : ∀ d, (f d).flags = 0) :
    BalancedAt (s.entered.modifyFd s.mainProcess fd f) s.mainProcess (.closed fd :: log) := by
  have htake := occupied_take (s.entered.modifyFd s.mainProcess fd f) s (p := s.mainProcess) h2 h8
    (by rw [modifyFd_same, hf]) hused fun i _ hi => (modifyFd_of_ne _ fun hloc => hi hloc.2).symm
  have hopens : FdLog.opens (.closed fd :: log) = log.opens := by simp [FdLog.opens]
  have hcloses : FdLog.closes (.closed fd :: log) = log.closes + 1 := by simp [FdLog.closes]
  unfold BalancedAt at hbal ⊢
  rw [hopens, hcloses]
  omega

/-- The flags of the descriptors stay. -/
theorem BalancedAt.same {s s' : FsState} {p : Int} {log log' : FdLog} (hbal : BalancedAt s p log)
    (hflags : ∀ i, 2 ≤ i → i < 8 → (s'.fdt p i).flags = (s.fdt p i).flags)
    (hopens : log'.opens = log.opens) (hcloses : log'.closes = log.closes) : BalancedAt s' p log' := by
  have hsame := occupied_congr s s' (p := p) fun i h2 h8 => by rw [hflags i h2 h8]
  unfold BalancedAt at hbal ⊢
  rw [hsame, hopens, hcloses]
  exact hbal

/-- A descriptor stays as free or as occupied as it was. -/
theorem BalancedAt.moved {s : FsState} {log log' : FdLog} (hbal : BalancedAt s s.mainProcess log)
    (fd : Int) {f : Fdt → Fdt} (hf : ∀ d, (f d).flags = d.flags) (hopens : log'.opens = log.opens)
    (hcloses : log'.closes = log.closes) :
    BalancedAt (s.entered.modifyFd s.mainProcess fd f) s.mainProcess log' := by
  refine hbal.same (fun i _ _ => ?_) hopens hcloses
  by_cases hi : i = fd
  · rw [hi, modifyFd_same]
    exact hf _
  · rw [modifyFd_of_ne _ fun hloc => hi hloc.2]
    rfl

/-- An event of the running process keeps the balance, unless it is a close of the rtc. -/
theorem FdEffect.balanced {img : Image} {s s' : FsState} {e : FsEvent} {act : Option FdAct}
    (heffect : FdEffect img s e act s') {log : FdLog} (h : FdsOf s.mainProcess s log)
    (hbal : BalancedAt s s.mainProcess log)
    (hrtc : ∀ fd, act = some (.closed fd) → (s.fdt s.mainProcess fd).fOps ≠ .rtc) :
    BalancedAt s' s.mainProcess (act.toList ++ log) := by
  cases heffect with
  | quiet e s' hfdt => exact hbal.same (fun i h2 _ => by rw [hfdt _ i (by omega)]) rfl rfl
  | opened filename fd hrefused hfree =>
    have hrange := firstFree_range hfree
    have htake := occupied_take s (s.took img filename fd) (p := s.mainProcess) hrange.1 (by omega)
      (firstFree_free hfree) (by rw [took_fdt_self, occupy_flags]; decide)
      fun i _ hi => took_fdt_other s img filename fun hloc => hi hloc.2
    have hopens : FdLog.opens (.opened fd ((openTable img filename).getD .rtc)
        (openInode img filename) :: log) = log.opens + 1 := by simp [FdLog.opens]
    have hcloses : FdLog.closes (.opened fd ((openTable img filename).getD .rtc)
        (openInode img filename) :: log) = log.closes := by simp [FdLog.closes]
    unfold BalancedAt at hbal ⊢
    rw [Option.toList_some, List.singleton_append, hopens, hcloses]
    omega
  | closedFile fd h0 h8 htable hused =>
    have h2 : 2 ≤ fd := h.two_le h0 (by rw [htable]; decide)
    exact hbal.release h2 h8 hused fun _ => rfl
  | closedDir fd h0 h8 htable hused =>
    have h2 : 2 ≤ fd := h.two_le h0 (by rw [htable]; decide)
    exact hbal.release h2 h8 hused fun _ => rfl
  | closedRtc fd h0 h8 htable => exact absurd htable (hrtc fd rfl)
  | moved fd bufNull nbytes ret h0 h8 htable hused hn hne hret =>
    exact hbal.moved fd (fun _ => rfl) rfl rfl
  | advanced fd bufNull nbytes h0 h8 htable hused hpos =>
    refine hbal.moved fd (fun _ => ?_) ?_ ?_
    · rfl
    · simp [FdLog.opens]
    · simp [FdLog.closes]

/-! The runs. -/

/-- Every process that has been created has as many descriptors occupied as it has opened and not
closed. -/
def Balanced (c : FsState × (Int → Option FdLog)) : Prop :=
  ∀ p log, c.2 p = some log → BalancedAt c.1 p log

/-- The state after an open. -/
def openNext (img : Image) (s : FsState) (filename : Option CStr) : FsState :=
  ((systemOpen img filename).run accessSem s).2

/-- What a sequence of opens returns. -/
def openAll (img : Image) (s : FsState) (names : List (Option CStr)) : List Int :=
  observe (openNext img) (fun s filename => some ((systemOpen img filename).run accessSem s).1) s names

/-- A process that has closed everything it opened can open six descriptors again, by any names that
are not refused for what they are. -/
def Reopens (img : Image) (c : FsState × (Int → Option FdLog)) : Prop :=
  ∀ log, c.2 c.1.mainProcess = some log → log.opens = log.closes →
    ∀ names, names.length = 6 →
      Along (openNext img) (fun s filename => refused img filename s = false) c.1 names →
      openAll img c.1 names = [2, 3, 4, 5, 6, 7]

/-- A close that returns 0 releases a descriptor. -/
def CloseFrees (c : FsState × (Int → Option FdLog)) (e : FsEvent) : Prop :=
  ∀ fd, e = .closeFd fd → c.2 c.1.mainProcess ≠ none →
    ((systemClose fd).run accessSem c.1).1 = .returned ⟨0, []⟩ →
    (c.1.fdt c.1.mainProcess fd).flags ≠ 0 ∧
      (((systemClose fd).run accessSem c.1).2.fdt c.1.mainProcess fd).flags = 0

/-- No close is of a descriptor with the table of the rtc. -/
def NoRtcClose (c : FsState × (Int → Option FdLog)) (e : FsEvent) : Prop :=
  ∀ fd, e = .closeFd fd → c.2 c.1.mainProcess ≠ none → 0 ≤ fd → fd < 8 →
    (c.1.fdt c.1.mainProcess fd).fOps ≠ .rtc

/-- Opens that are not refused fill the free descriptors in order. -/
theorem openAll_fills (img : Image) (names : List (Option CStr)) (k : Nat)
    (hlen : k + names.length = 6) {s : FsState} (hstd : StdOpen s s.mainProcess)
    (hused : ∀ i : Int, 2 ≤ i → i < 2 + k → (s.fdt s.mainProcess i).flags ≠ 0)
    (hfree : ∀ i : Int, 2 + k ≤ i → i < 8 → (s.fdt s.mainProcess i).flags = 0)
    (hopens : Along (openNext img) (fun s filename => refused img filename s = false) s names) :
    openAll img s names = (List.range' (2 + k) names.length).map Int.ofNat := by
  induction names generalizing k s with
  | nil => rfl
  | cons filename names ih =>
    rw [List.length_cons] at hlen
    -- the lowest free descriptor is the next one
    have hnext : s.freeFd = some (2 + (k : Int)) := by
      cases hfd : s.freeFd with
      | none =>
        exact absurd (hfree (2 + k) (le_refl _) (by omega))
          (firstFree_none.mp hfd (2 + k) (by omega) (by omega))
      | some fd =>
        have hrange := firstFree_range hfd
        have hfd0 : (s.fdt s.mainProcess fd).flags = 0 := firstFree_free hfd
        have hge : ¬ fd < 2 + k := fun hlt => hused fd hrange.1 hlt hfd0
        have hle : ¬ 2 + k < fd := fun hlt =>
          firstFree_lowest hfd (by omega) hlt (hfree (2 + k) (le_refl _) (by omega))
        have heq : fd = 2 + k := by omega
        rw [heq]
    have hexact := systemOpen_exact img filename hstd
    rw [hopens.1, if_neg Bool.false_ne_true, hnext] at hexact
    have hstate : openNext img s filename = s.took img filename (2 + k) := by
      unfold openNext
      rw [hexact]
    have hmain : (s.took img filename (2 + k)).mainProcess = s.mainProcess :=
      holding_mainProcess s.entered (openEntry img filename)
    have hother : ∀ i, i ≠ 2 + (k : Int) →
        (s.took img filename (2 + k)).fdt s.mainProcess i = s.fdt s.mainProcess i := fun i hi =>
      took_fdt_other s img filename fun hloc => hi hloc.2
    have hrest := ih (k + 1) (by omega) (s := openNext img s filename) (by
        rw [hstate, hmain]
        unfold StdOpen
        rw [hother 0 (by omega), hother 1 (by omega)]
        exact hstd) (by
        intro i h2 hi
        rw [hstate, hmain]
        by_cases heq : i = 2 + k
        · rw [heq, took_fdt_self, occupy_flags]
          decide
        · rw [hother i heq]
          exact hused i h2 (by omega)) (by
        intro i hi h8
        rw [hstate, hmain, hother i (by omega)]
        exact hfree i (by omega) h8) hopens.2
    unfold openAll at hrest ⊢
    rw [observe, hrest, hexact, List.length_cons, List.range'_succ, List.map_cons]
    rfl

theorem reopens_of_balanced (img : Image) {c : FsState × (Int → Option FdLog)} (hc : LogsAgree c)
    (hbal : Balanced c) : Reopens img c := by
  intro log hlog heq names hlen hopens
  have hbal' := hbal _ _ hlog
  unfold BalancedAt at hbal'
  have hfree := occupied_eq_zero.mp (show occupied c.1 c.1.mainProcess = 0 by omega)
  have hfills := openAll_fills img names 0 (by omega) (hc _ _ hlog).stdOpen
    (fun i h2 hi => by omega) (fun i hi h8 => hfree i (by omega) h8) hopens
  rw [hfills, hlen]
  rfl

/-- The act of a close of the rtc. -/
theorem fdAct_rtc (img : Image) {s : FsState} {fd : Int} (h0 : 0 ≤ fd) (h8 : fd < 8)
    (htable : (s.fdt s.mainProcess fd).fOps = .rtc) :
    fdAct img s (.closeFd fd) = some (.closed fd) ∧ fsNext img s (.closeFd fd) = s.entered := by
  have hexact := systemClose_exact h0 h8 s
  rw [htable] at hexact
  constructor
  · unfold fdAct
    dsimp only
    rw [hexact, if_pos rfl]
  · change ((systemClose fd).run accessSem s).2 = _
    rw [hexact]

/-- What is logged as closed has been closed. -/
theorem closed_of_fdAct {img : Image} {s : FsState} {e : FsEvent} {fd : Int}
    (h : fdAct img s e = some (.closed fd)) : e = .closeFd fd ∧ 0 ≤ fd ∧ fd < 8 := by
  cases e with
  | create p => cases h
  | schedule p => cases h
  | openFile filename =>
    unfold fdAct at h
    dsimp only at h
    split at h
    · cases h
    · cases h
  | closeFd i =>
    unfold fdAct at h
    dsimp only at h
    split at h
    · rename_i hret
      -- the act names the descriptor of the event
      obtain rfl : i = fd := by
        cases h
        rfl
      refine ⟨rfl, ?_⟩
      by_contra hrange
      rw [systemClose_refused (by omega)] at hret
      cases hret
    · cases h
  | readFd i bufNull nbytes =>
    unfold fdAct at h
    dsimp only at h
    split at h
    · cases h
    · cases h
  | writeFd i bufNull => cases h

theorem balanced_step (img : Image) {c : FsState × (Int → Option FdLog)} (hc : LogsAgree c)
    (hbal : Balanced c) (e : FsEvent) (hrtc : NoRtcClose c e) : Balanced (fdStep img c e) := by
  apply fdStep_keeps img (P := fun p s log => BalancedAt s p log)
  · intro p s
    have hzero : occupied { createFds p s with mainProcess := p } p = 0 := by
      apply occupied_eq_zero.mpr
      intro i h2 h8
      change ((createFds p s).fdt p i).flags = 0
      rw [createFds_free s p h2 h8]
    unfold BalancedAt
    rw [hzero]
    rfl
  · intro p s s' log hfdt h
    exact h.same (fun i _ _ => congrArg Fdt.flags (hfdt i)) rfl rfl
  · intro log hcreate hlog h
    apply (hc.effect img hlog hcreate).balanced (hc _ log hlog) h
    intro fd hact
    obtain ⟨rfl, h0, h8⟩ := closed_of_fdAct hact
    exact hrtc fd rfl (by rw [hlog]; exact Option.some_ne_none log) h0 h8
  · exact hbal

/-- A close of the rtc breaks the balance at once. -/
theorem not_balanced_step (img : Image) {c : FsState × (Int → Option FdLog)} (hbal : Balanced c)
    {e : FsEvent} (hrtc : ¬ NoRtcClose c e) : ¬ Balanced (fdStep img c e) := by
  unfold NoRtcClose at hrtc
  push Not at hrtc
  obtain ⟨fd, rfl, hcreated, h0, h8, htable⟩ := hrtc
  obtain ⟨log, hlog⟩ := Option.ne_none_iff_exists'.mp hcreated
  obtain ⟨hact, hnext⟩ := fdAct_rtc img h0 h8 htable
  have hlog' : (fdStep img c (.closeFd fd)).2 c.1.mainProcess = some (.closed fd :: log) := by
    rw [fdStep_logs (fun q h => by cases h), hlog, Option.map_some, if_pos rfl, hact]
    rfl
  intro hafter
  have hbal' := hafter _ _ hlog'
  have hbefore := hbal _ _ hlog
  have hsame : occupied (fdStep img c (.closeFd fd)).1 c.1.mainProcess = occupied c.1 c.1.mainProcess := by
    change occupied (fsNext img c.1 (.closeFd fd)) c.1.mainProcess = _
    rw [hnext]
    rfl
  -- the close is counted, and nothing has been released
  have hopens : FdLog.opens (.closed fd :: log) = log.opens := by simp [FdLog.opens]
  have hcloses : FdLog.closes (.closed fd :: log) = log.closes + 1 := by simp [FdLog.closes]
  unfold BalancedAt at hbal' hbefore
  rw [hsame, hopens, hcloses] at hbal'
  omega

theorem closeFrees_of_noRtcClose {c : FsState × (Int → Option FdLog)} {e : FsEvent}
    (hrtc : NoRtcClose c e) : CloseFrees c e := by
  rintro fd rfl hcreated hret
  have hrange : 0 ≤ fd ∧ fd < 8 := by
    have hact : fdAct (fun _ => 0) c.1 (.closeFd fd) = some (.closed fd) := if_pos hret
    exact (closed_of_fdAct hact).2
  have htable := hrtc fd rfl hcreated hrange.1 hrange.2
  rw [systemClose_exact hrange.1 hrange.2] at hret ⊢
  -- a close that returns 0 is one of a file, of the directory or of the rtc
  cases hops : (c.1.fdt c.1.mainProcess fd).fOps with
  | file =>
    rw [hops] at hret
    dsimp only at hret ⊢
    by_cases hfree : (c.1.fdt c.1.mainProcess fd).flags = 0
    · rw [if_pos hfree] at hret
      cases hret
    · rw [if_neg hfree]
      exact ⟨hfree, by rw [modifyFd_same]⟩
  | dir =>
    rw [hops] at hret
    dsimp only at hret ⊢
    by_cases hfree : (c.1.fdt c.1.mainProcess fd).flags = 0
    · rw [if_pos hfree] at hret
      cases hret
    · rw [if_neg hfree]
      exact ⟨hfree, by rw [modifyFd_same]⟩
  | rtc => exact absurd hops htable
  | terminal =>
    rw [hops] at hret
    cases hret
  | unset =>
    rw [hops] at hret
    cases hret

theorem balanced_noLogs (s : FsState) : Balanced (s, noLogs) := by
  intro p log hlog
  cases hlog

/-- **Descriptors are not leaked**: in a run from any memory, the balance holds in every state, a
process that has closed everything can open six again, and every close that returns 0 releases a
descriptor, exactly when no close is of a descriptor with the table of the rtc. -/
theorem fds_balance_iff (img : Image) (s : FsState) (es : List FsEvent) :
    ((∀ pre, pre <+: es → let c := run (fdStep img) (s, noLogs) pre; Balanced c ∧ Reopens img c) ∧
        Along (fdStep img) CloseFrees (s, noLogs) es) ↔
      Along (fdStep img) NoRtcClose (s, noLogs) es := by
  have hexact : (∀ pre, pre <+: es → Balanced (run (fdStep img) (s, noLogs) pre) ∧
      Reopens img (run (fdStep img) (s, noLogs) pre)) ↔
        Along (fdStep img) NoRtcClose (s, noLogs) es := prefix_iff_along
    (I := fun c => LogsAgree c ∧ Balanced c) (P := fun c => Balanced c ∧ Reopens img c)
    (B := fun _ _ => True)
    (fun c e hI _ hrtc => ⟨logsAgree_step img hI.1 e, balanced_step img hI.1 hI.2 e hrtc⟩)
    (fun c hI => ⟨hI.2, reopens_of_balanced img hI.1 hI.2⟩)
    (fun c e hI _ hrtc hP => not_balanced_step img hI.2 hrtc hP.1)
    ⟨logsAgree_noLogs s, balanced_noLogs s⟩
    (along_of_forall (E := fun _ => True) (fun _ _ => trivial) _)
  constructor
  · rintro ⟨hall, -⟩
    exact hexact.mp hall
  · intro halong
    exact ⟨hexact.mpr halong, halong.mono fun _ _ => closeFrees_of_noRtcClose⟩

/-- The rtc is opened and closed six times, and a process with nothing open cannot open it again. -/
theorem fds_leak :
    let es := .create 0 :: (List.range 6).flatMap fun k =>
      [.openFile (some [114, 116, 99]), .closeFd ((k : Int) + 2)]
    let c := run (fdStep rtcImage) (sampleFs, noLogs) es
    (c.2 0).map FdLog.opens = some 6 ∧ (c.2 0).map FdLog.closes = some 6 ∧ occupied c.1 0 = 6 ∧
      ((systemOpen rtcImage (some [114, 116, 99])).run accessSem c.1).1 = -1 ∧ ¬ Balanced c := by
  intro es c
  have hopens : (c.2 0).map FdLog.opens = some 6 := by decide +kernel
  have hcloses : (c.2 0).map FdLog.closes = some 6 := by decide +kernel
  have hoccupied : occupied c.1 0 = 6 := by decide +kernel
  refine ⟨hopens, hcloses, hoccupied, by decide +kernel, ?_⟩
  intro h
  obtain ⟨log, hlog, hopens'⟩ := Option.map_eq_some_iff.mp hopens
  rw [hlog, Option.map_some, Option.some.injEq] at hcloses
  have hbal := h 0 log hlog
  unfold BalancedAt at hbal
  omega

/-! ## The position of a new open -/

/-- A successful open of a file or a directory is at position 0: the next read delivers the file from
its first byte, or the first entry of the directory. -/
def OpenStarts (img : Image) (c : FsState × (Int → Option FdLog)) (e : FsEvent) : Prop :=
  ∀ filename, e = .openFile filename → c.2 c.1.mainProcess ≠ none →
    let opened := (systemOpen img filename).run accessSem c.1
    opened.1 ≠ -1 → ∀ table, openTable img filename = some table →
      (opened.2.fdt c.1.mainProcess opened.1).filePos = 0 ∧
      ∀ nbytes, 0 ≤ nbytes →
        ((systemRead img opened.1 false nbytes).run accessSem opened.2).1 =
          .returned (if table = .file then fileRecord img (openInode img filename) 0 nbytes
            else dirRecord img 0 nbytes)

/-- An open of the directory takes a descriptor through which the process has not read the directory
since it was created, or since it last opened a file there. -/
def NoStalePosition (img : Image) (c : FsState × (Int → Option FdLog)) (e : FsEvent) : Prop :=
  ∀ filename log fd, e = .openFile filename → c.2 c.1.mainProcess = some log →
    openTable img filename = some .dir → refused img filename c.1 = false → c.1.freeFd = some fd →
    log.dirReads fd = 0

/-- The first read of a descriptor that an open has left at position 0. -/
theorem firstRead_took {img : Image} {filename : Option CStr} {table : FOps}
    (htable : openTable img filename = some table) {s : FsState} {fd : Int} (h2 : 2 ≤ fd) (h8 : fd < 8)
    (hpos : (occupy img filename (s.fdt s.mainProcess fd)).filePos = 0) {nbytes : Int}
    (hn : 0 ≤ nbytes) :
    ((systemRead img fd false nbytes).run accessSem (s.took img filename fd)).1 =
      .returned (if table = .file then fileRecord img (openInode img filename) 0 nbytes
        else dirRecord img 0 nbytes) := by
  have hmain : (s.took img filename fd).mainProcess = s.mainProcess :=
    holding_mainProcess s.entered (openEntry img filename)
  have hself := took_fdt_self s img filename fd
  -- the read finds what the open has stored
  have hentered : (s.took img filename fd).entered.fdt (s.took img filename fd).entered.currPcb fd =
      occupy img filename (s.fdt s.mainProcess fd) := by
    change (s.took img filename fd).fdt (s.took img filename fd).mainProcess fd = _
    rw [hmain, hself]
  have hopen : ((s.took img filename fd).entered.fdt (s.took img filename fd).entered.currPcb fd).flags
      ≠ 0 := by
    rw [hentered, occupy_flags]
    decide
  have htake : occupy img filename (s.fdt s.mainProcess fd) =
      { claim (table = .file) (openInode img filename) (s.fdt s.mainProcess fd) with
        fOps := table } := by
    unfold occupy
    rw [htable]
  rw [systemRead_dispatch img (by omega) h8, hmain, hself, occupy_fOps, htable, Option.getD_some]
  rcases openTable_cases img filename with hnone | hdir | hfile
  · rw [htable] at hnone
    cases hnone
  · obtain rfl := Option.some.inj (htable.symm.trans hdir)
    dsimp only
    rw [dirRead_open img (by omega) h8 nbytes hopen, hentered, hpos, if_neg (by decide)]
  · obtain rfl := Option.some.inj (htable.symm.trans hfile)
    dsimp only
    have hinode : (occupy img filename (s.fdt s.mainProcess fd)).inodeNum = openInode img filename := by
      rw [htake]
      rfl
    rw [fileRead_open img (by omega) h8 hn hopen, hentered, hpos, hinode, if_pos rfl]

theorem openStarts_iff (img : Image) (c : FsState × (Int → Option FdLog)) (e : FsEvent)
    (hc : LogsAgree c) : OpenStarts img c e ↔ NoStalePosition img c e := by
  constructor
  · intro hstarts filename log fd he hlog htable hrefused hfree
    have hstd := (hc _ _ hlog).stdOpen
    have hrange := firstFree_range hfree
    have hexact := systemOpen_exact img filename hstd
    rw [hrefused, if_neg Bool.false_ne_true, hfree] at hexact
    have hopened := hstarts filename he (by rw [hlog]; exact Option.some_ne_none log)
    rw [hexact] at hopened
    have hpos := (hopened (by dsimp only; omega) .dir htable).1
    dsimp only at hpos
    rw [took_fdt_self] at hpos
    unfold occupy at hpos
    rw [htable] at hpos
    -- a directory keeps the position, which counts the reads
    have hkept : (c.1.fdt c.1.mainProcess fd).filePos = 0 := hpos
    have hcount := ((hc _ _ hlog).entry fd hrange.1 (by omega)).pos
      fun h => h.1 (firstFree_free hfree)
    omega
  · intro hfresh filename he hcreated opened hret table htable
    obtain ⟨log, hlog⟩ := Option.ne_none_iff_exists'.mp hcreated
    have hstd := (hc _ _ hlog).stdOpen
    have hexact : opened = _ := systemOpen_exact img filename hstd
    cases hrefused : refused img filename c.1 with
    | true =>
      rw [hrefused, if_pos rfl] at hexact
      rw [hexact] at hret
      exact (hret rfl).elim
    | false =>
      rw [hrefused, if_neg Bool.false_ne_true] at hexact
      cases hfree : c.1.freeFd with
      | none =>
        rw [hfree] at hexact
        rw [hexact] at hret
        exact (hret rfl).elim
      | some fd =>
        rw [hfree] at hexact
        have hrange := firstFree_range hfree
        have hpos : (occupy img filename (c.1.fdt c.1.mainProcess fd)).filePos = 0 := by
          unfold occupy
          rw [htable]
          by_cases hfile : table = .file
          · simp [claim, hfile]
          · have hdir : table = .dir := by
              rcases openTable_cases img filename with h | h | h
              · rw [htable] at h
                cases h
              · exact Option.some.inj (htable.symm.trans h)
              · exact absurd (Option.some.inj (htable.symm.trans h)) hfile
            have hreads := hfresh filename log fd he hlog (hdir ▸ htable) hrefused hfree
            have hcount := ((hc _ _ hlog).entry fd hrange.1 (by omega)).pos
              fun h => h.1 (firstFree_free hfree)
            rw [hreads] at hcount
            simpa [claim, hfile] using hcount
        rw [hexact]
        refine ⟨?_, fun nbytes hn => firstRead_took htable hrange.1 (by omega) hpos hn⟩
        dsimp only
        rw [took_fdt_self]
        exact hpos

/-- **Where an open starts**: in a run from any memory, every successful open of a file or a directory
starts at the beginning exactly when every open of the directory takes a descriptor through which the
process has not read the directory since its last file there. -/
theorem open_starts_iff (img : Image) (s : FsState) (es : List FsEvent) :
    Along (fdStep img) (OpenStarts img) (s, noLogs) es ↔
      Along (fdStep img) (NoStalePosition img) (s, noLogs) es :=
  along_iff_of_invariant (fun _ e hc => logsAgree_step img hc e)
    (fun c e hc => openStarts_iff img c e hc) (logsAgree_noLogs s) es

/-- The directory is opened, read, closed and opened again, and the next read delivers its second
entry. -/
theorem open_starts_late :
    let es := [.create 0, .openFile (some [46]), .readFd 2 false 32, .closeFd 2]
    let c := run (fdStep sampleImage) (sampleFs, noLogs) es
    let opened := (systemOpen sampleImage (some [46])).run accessSem c.1
    opened.1 = 2 ∧ (opened.2.fdt 0 2).filePos = 1 ∧
      ((systemRead sampleImage 2 false 32).run accessSem opened.2).1 = .returned ⟨1, [97]⟩ ∧
      ¬ Along (fdStep sampleImage) (OpenStarts sampleImage) (sampleFs, noLogs)
        (es ++ [.openFile (some [46])]) := by
  refine ⟨by decide +kernel, by decide +kernel, by decide +kernel, ?_⟩
  intro h
  rw [along_append] at h
  have hpos := (h.2.1 (some [46]) rfl (by decide +kernel) (by decide +kernel) .dir
    (by decide +kernel)).1
  revert hpos
  decide +kernel

/-! ## Refused files -/

/-- The file with this inode number is open on some descriptor of the process, or no descriptor is
free. -/
def MayRefuse (c : FsState × (Int → Option FdLog)) (log : FdLog) (inode : Int) : Prop :=
  (∃ fd, 2 ≤ fd ∧ fd < 8 ∧ log.fileAt fd = some inode) ∨ c.1.freeFd = none

/-- An open of a regular file fails only if that file is open or no descriptor is free. -/
def RefusedRightly (img : Image) (c : FsState × (Int → Option FdLog)) (e : FsEvent) : Prop :=
  ∀ filename log, e = .openFile filename → c.2 c.1.mainProcess = some log →
    getFiletype img filename = 2 → ((systemOpen img filename).run accessSem c.1).1 = -1 →
    MayRefuse c log (openInode img filename)

/-- Some occupied descriptor that is no file carries the inode number: one of the terminal's, which
carry -1, or one that the directory or the rtc has and that was last opened for it. -/
def Carried (c : FsState × (Int → Option FdLog)) (log : FdLog) (inode : Int) : Prop :=
  inode = -1 ∨ ∃ fd, 2 ≤ fd ∧ fd < 8 ∧ (c.1.fdt c.1.mainProcess fd).flags ≠ 0 ∧
    ((c.1.fdt c.1.mainProcess fd).fOps = .dir ∨ (c.1.fdt c.1.mainProcess fd).fOps = .rtc) ∧
    log.lastInode fd = inode

/-- A regular file whose inode number another kind of descriptor carries is opened only while it is open
already or no descriptor is free. -/
def NoCarried (img : Image) (c : FsState × (Int → Option FdLog)) (e : FsEvent) : Prop :=
  ∀ filename log, e = .openFile filename → c.2 c.1.mainProcess = some log →
    getFiletype img filename = 2 → Carried c log (openInode img filename) →
    MayRefuse c log (openInode img filename)

/-- What makes an inode number in use. -/
theorem inUse_iff {c : FsState × (Int → Option FdLog)} {log : FdLog}
    (h : FdsOf c.1.mainProcess c.1 log) (inode : Int) :
    InUse c.1 c.1.mainProcess inode ↔
      Carried c log inode ∨ ∃ fd, 2 ≤ fd ∧ fd < 8 ∧ log.fileAt fd = some inode := by
  constructor
  · rintro ⟨i, hi, hused, hinode⟩
    -- the entries of the terminal carry the inode number -1, the others what they were last
    -- opened with
    by_cases h2 : i < 2
    · have hstd := (h.std i (by omega) (by omega)).2.2
      exact .inl (.inl (hinode.symm.trans hstd))
    have hentry := h.entry i (by omega) (by omega)
    rcases hentry.kind hused with hfile | hother
    · exact .inr ⟨i, by omega, by omega, (hentry.file inode).mpr ⟨hused, hfile, hinode⟩⟩
    · exact .inl (.inr ⟨i, by omega, by omega, hused, hother, hentry.inode.symm.trans hinode⟩)
  · rintro ((rfl | ⟨fd, h2, h8, hused, -, hlast⟩) | ⟨fd, h2, h8, hfile⟩)
    · have hstd := h.std 0 (by omega) (by omega)
      exact ⟨0, by omega, hstd.1, hstd.2.2⟩
    · have hentry := h.entry fd h2 h8
      refine ⟨fd.toNat, by omega, ?_⟩
      rw [Int.toNat_of_nonneg (by omega)]
      exact ⟨hused, hentry.inode.trans hlast⟩
    · obtain ⟨hused, -, hinode⟩ := ((h.entry fd h2 h8).file inode).mp hfile
      refine ⟨fd.toNat, by omega, ?_⟩
      rw [Int.toNat_of_nonneg (by omega)]
      exact ⟨hused, hinode⟩

/-- An open of a regular file, exactly. -/
theorem refused_of_file {img : Image} {filename : Option CStr} (htype : getFiletype img filename = 2)
    (s : FsState) :
    refused img filename s = decide (InUse s s.mainProcess (openInode img filename)) := by
  cases filename with
  | none => cases htype
  | some name =>
    obtain ⟨d, hd, -⟩ := entry_of_filetype img name (by rw [htype]; decide)
    have hinode : openInode img (some name) = d.inodeNum := by
      simp [openInode, openEntry, htype, hd]
    rw [refused_some, htype, hinode, hd]
    rfl

theorem refusedRightly_iff (img : Image) (c : FsState × (Int → Option FdLog)) (e : FsEvent)
    (hc : LogsAgree c) : RefusedRightly img c e ↔ NoCarried img c e := by
  -- an open of a file fails when its inode is in use, or for want of a descriptor
  have hfails : ∀ filename log, c.2 c.1.mainProcess = some log → getFiletype img filename = 2 →
      (((systemOpen img filename).run accessSem c.1).1 = -1 ↔
        InUse c.1 c.1.mainProcess (openInode img filename) ∨ c.1.freeFd = none) := by
    intro filename log hlog htype
    rw [systemOpen_exact img filename (hc _ _ hlog).stdOpen, refused_of_file htype]
    by_cases hin : InUse c.1 c.1.mainProcess (openInode img filename)
    · simp [hin]
    · cases hfree : c.1.freeFd with
      | none => simp [hin]
      | some fd =>
        have hrange := firstFree_range hfree
        have hne : fd ≠ -1 := by omega
        simp [hin, hne]
  constructor
  · intro hright filename log he hlog htype hcarried
    apply hright filename log he hlog htype
    rw [hfails filename log hlog htype, inUse_iff (hc _ _ hlog)]
    exact .inl (.inl hcarried)
  · intro hcarried filename log he hlog htype hfail
    rw [hfails filename log hlog htype, inUse_iff (hc _ _ hlog)] at hfail
    rcases hfail with (hcarry | hfile) | hfree
    · exact hcarried filename log he hlog htype hcarry
    · exact .inl hfile
    · exact .inr hfree

/-- **Refusals**: in a run from any memory, every refusal to open a regular file is right exactly when
no file is opened, except while it is open or no descriptor is free, whose inode number a descriptor of
another kind carries. -/
theorem open_refused_iff (img : Image) (s : FsState) (es : List FsEvent) :
    Along (fdStep img) (RefusedRightly img) (s, noLogs) es ↔
      Along (fdStep img) (NoCarried img) (s, noLogs) es :=
  along_iff_of_invariant (fun _ e hc => logsAgree_step img hc e)
    (fun c e hc => refusedRightly_iff img c e hc) (logsAgree_noLogs s) es

/-- A file is opened and closed, the rtc takes its descriptor, and the file cannot be opened although
five descriptors are free. -/
theorem open_refused_wrongly :
    let es := [.create 0, .openFile (some [97]), .closeFd 2, .openFile (some [114, 116, 99])]
    let c := run (fdStep rtcImage) (sampleFs, noLogs) es
    ((systemOpen rtcImage (some [97])).run accessSem c.1).1 = -1 ∧ c.1.freeFd = some 3 ∧
      (c.2 0).map (FdLog.fileAt 2) = some none ∧
      ¬ Along (fdStep rtcImage) (RefusedRightly rtcImage) (sampleFs, noLogs)
        (es ++ [.openFile (some [97])]) := by
  refine ⟨by decide +kernel, by decide +kernel, by decide +kernel, ?_⟩
  intro h
  rw [along_append] at h
  have hlog : let c := run (fdStep rtcImage) (sampleFs, noLogs) [.create 0, .openFile (some [97]),
      .closeFd 2, .openFile (some [114, 116, 99])]
      c.2 c.1.mainProcess = some [.opened 2 .rtc 0, .closed 2, .opened 2 .file 1] := by
    decide +kernel
  rcases h.2.1 (some [97]) _ rfl hlog (by decide +kernel) (by decide +kernel) with
    ⟨fd, -, -, hfile⟩ | hfree
  · have hnone : FdLog.fileAt fd [.opened 2 .rtc 0, .closed 2, .opened 2 .file 1] = none := by
      simp only [FdLog.fileAt]
      split <;> simp_all
    rw [hnone] at hfile
    cases hfile
  · revert hfree
    decide +kernel

end SrirachOS
