import SrirachOS.Console.LineSlot
import SrirachOS.FileSys.FdLog
import SrirachOS.FileSys.ReadExact
import SrirachOS.Kernel.Arguments

/-!
# The Buffer of a Read

A caller of `system_read` names a buffer and its size. The four read functions each decide for
themselves how much they store there, and `terminal_read` and `getargs` never look at the size.

- `posOk_run`: in every run the position of an open file stays within the file,
- `line_run`: the line that a `terminal_read` returns ends at its first newline,
- `read_contract_iff`: so a read keeps to its buffer, and says how much it has stored, exactly when a
  line fits, and a directory has not come to its end.
-/

namespace SrirachOS

open Foundation FsProg

/-! ## Files -/

/-- A read keeps to a buffer of `nbytes` bytes: it stores nothing behind it, and what it returns, unless
that is an error, is how much it has stored. -/
def ReadContract (nbytes : Int) (res : ReadResult) : Prop :=
  (res.buf.length : Int) ≤ nbytes ∧ (0 ≤ res.ret → res.ret ≤ nbytes ∧ (res.buf.length : Int) = res.ret)

instance (nbytes : Int) (res : ReadResult) : Decidable (ReadContract nbytes res) :=
  inferInstanceAs (Decidable (_ ∧ _))

/-- A position that reads of a file lead to. An inode with a negative length delivers nothing. -/
def PosOk (img : Image) (inode pos : Int) : Prop :=
  (0 ≤ img.inodeLength inode → 0 ≤ pos ∧ pos ≤ img.inodeLength inode) ∧
    (img.inodeLength inode < 0 → pos = 0)

theorem PosOk.range {img : Image} {inode pos : Int} (h : PosOk img inode pos) :
    0 ≤ pos ∧ pos < 2147483648 := by
  have hmax : img.inodeLength inode < 2147483648 := img.word_lt _
  obtain ⟨hin, hempty⟩ := h
  by_cases h0 : 0 ≤ img.inodeLength inode
  · have := hin h0
    omega
  · have := hempty (by omega)
    omega

/-- The clamped length at such a position. -/
theorem clampLength_exact {L pos nbytes : Int} (hL : -2147483648 ≤ L ∧ L < 2147483648)
    (hn : 0 ≤ nbytes) (hpos : (0 ≤ L → 0 ≤ pos ∧ pos ≤ L) ∧ (L < 0 → pos = 0)) :
    clampLength L (u32 pos) (u32 (readSize L nbytes)) = min nbytes (L - pos) := by
  obtain ⟨hnonneg, hneg⟩ := hpos
  unfold readSize clampLength
  by_cases h0 : 0 ≤ L
  · obtain ⟨hp0, hpL⟩ := hnonneg h0
    have hu : ∀ x, 0 ≤ x → x < 4294967296 → u32 x = x := fun x => u32_of_fits
    have hi : ∀ x, -2147483648 ≤ x → x < 2147483648 → i32 x = x := fun x => i32_of_fits
    by_cases hclamp : nbytes ≥ L
    · rw [if_pos hclamp, hu pos hp0 (by omega), hu L h0 (by omega), hu (pos + L) (by omega) (by omega),
        hi (L - pos) (by omega) (by omega), hi L (by omega) (by omega)]
      split <;> omega
    · rw [if_neg hclamp, hu pos hp0 (by omega), hu L h0 (by omega), hu nbytes hn (by omega),
        hu (pos + nbytes) (by omega) (by omega), hi (L - pos) (by omega) (by omega),
        hi nbytes (by omega) (by omega)]
      split <;> omega
  · -- the request is clamped at the negative length, and nothing is left
    have hp := hneg (by omega)
    have hclamp : nbytes ≥ L := by omega
    have h0' : u32 0 = 0 := u32_of_fits (by omega) (by omega)
    have hu : u32 (0 + u32 L) = u32 L := by
      unfold u32
      omega
    have hi : i32 (u32 L) = L := by
      unfold u32 i32
      split <;> omega
    rw [if_pos hclamp, hp, h0', hu, if_neg (by unfold u32; omega), hi]
    omega

theorem clampLength_posOk {L pos nbytes : Int} (hL : -2147483648 ≤ L ∧ L < 2147483648)
    (hn : 0 ≤ nbytes) (hpos : (0 ≤ L → 0 ≤ pos ∧ pos ≤ L) ∧ (L < 0 → pos = 0)) :
    max 0 (clampLength L (u32 pos) (u32 (readSize L nbytes))) ≤ nbytes ∧
      (0 ≤ L → max 0 (clampLength L (u32 pos) (u32 (readSize L nbytes))) ≤ L - pos) ∧
      (L < 0 → max 0 (clampLength L (u32 pos) (u32 (readSize L nbytes))) = 0) := by
  rw [clampLength_exact hL hn hpos]
  obtain ⟨hnonneg, hneg⟩ := hpos
  exact ⟨by omega, by omega, by omega⟩

/-- An inode number is the same as a signed and as an unsigned one: addresses wrap. -/
theorem inodeLength_u32 (img : Image) (inode : Int) :
    img.inodeLength (u32 inode) = img.inodeLength inode := by
  have hbyte : ∀ k, img.byte (Image.inodeAddr (u32 inode) + k) =
      img.byte (Image.inodeAddr inode + k) := by
    intro k
    unfold Image.byte
    congr 2
    unfold u32 Image.inodeAddr
    omega
  have hfirst := hbyte 0
  rw [Int.add_zero, Int.add_zero] at hfirst
  unfold Image.inodeLength Image.word
  rw [hfirst, hbyte 1, hbyte 2, hbyte 3]

/-- **A read of an open file** keeps to its buffer, and to the file. -/
theorem fileRecord_contract {img : Image} {inode pos nbytes : Int} (hn : 0 ≤ nbytes)
    (hpos : PosOk img inode pos) :
    ReadContract nbytes (fileRecord img inode pos nbytes) ∧
      ((fileRecord img inode pos nbytes).ret ≠ -1 →
        PosOk img inode (i32 (pos + (fileRecord img inode pos nbytes).ret))) := by
  obtain ⟨hstored, hret⟩ := readData_stores img (u32 inode) (u32 pos)
    (u32 (readSize (img.inodeLength inode) nbytes))
  have hrange : -2147483648 ≤ img.inodeLength inode ∧ img.inodeLength inode < 2147483648 :=
    ⟨img.word_ge _, img.word_lt _⟩
  obtain ⟨hbuf, hrest, hnone⟩ := clampLength_posOk hrange hn hpos
  rw [inodeLength_u32] at hstored
  unfold fileRecord
  dsimp only
  generalize readData img _ _ _ = res at hstored hret
  generalize max 0 (clampLength (img.inodeLength inode) (u32 pos)
    (u32 (readSize (img.inodeLength inode) nbytes))) = left at hstored hbuf hrest hnone
  by_cases herr : res.ret = -1
  · rw [if_pos herr]
    exact ⟨⟨by dsimp only; omega, fun h => by dsimp only at h; omega⟩, fun h => absurd rfl h⟩
  · rw [if_neg herr]
    have hcount := hret.resolve_left herr
    refine ⟨⟨by omega, fun _ => ⟨by omega, hcount.symm⟩⟩, fun _ => ?_⟩
    obtain ⟨hnonneg, hneg⟩ := hpos
    constructor
    · intro h0
      have hin := hnonneg h0
      have hleft := hrest h0
      rw [i32_of_fits (by omega) (by omega)]
      omega
    · intro hlt
      rw [hneg hlt, i32_of_fits (by omega) (by omega)]
      have hzero := hnone hlt
      omega

/-- Every open file of a created process is at a position that reads lead to. -/
def PositionsOk (img : Image) (c : FsState × (Int → Option FdLog)) : Prop :=
  ∀ p, c.2 p ≠ none → ∀ fd, 2 ≤ fd → fd < 8 → (c.1.fdt p fd).flags ≠ 0 →
    (c.1.fdt p fd).fOps = .file → PosOk img (c.1.fdt p fd).inodeNum (c.1.fdt p fd).filePos

theorem posOk_zero (img : Image) (inode : Int) : PosOk img inode 0 :=
  ⟨fun h => ⟨le_refl 0, h⟩, fun _ => rfl⟩

/-- The open files of one process. -/
def PositionsAt (img : Image) (p : Int) (s : FsState) : Prop :=
  ∀ fd, 2 ≤ fd → fd < 8 → (s.fdt p fd).flags ≠ 0 → (s.fdt p fd).fOps = .file →
    PosOk img (s.fdt p fd).inodeNum (s.fdt p fd).filePos

theorem PositionsAt.same {img : Image} {p : Int} {s s' : FsState} (h : PositionsAt img p s)
    (hfdt : ∀ i, s'.fdt p i = s.fdt p i) : PositionsAt img p s' := by
  intro fd h2 h8 hused htable
  rw [hfdt fd] at hused htable ⊢
  exact h fd h2 h8 hused htable

/-- One descriptor changes: it is free, or no file's, or at such a position. -/
theorem PositionsAt.change {img : Image} {p : Int} {s s' : FsState} (h : PositionsAt img p s) {i : Int}
    (hother : ∀ fd, fd ≠ i → s'.fdt p fd = s.fdt p fd)
    (hself : 2 ≤ i → i < 8 → (s'.fdt p i).flags ≠ 0 → (s'.fdt p i).fOps = .file →
      PosOk img (s'.fdt p i).inodeNum (s'.fdt p i).filePos) : PositionsAt img p s' := by
  intro fd h2 h8 hused htable
  by_cases hi : fd = i
  · subst hi
    exact hself h2 h8 hused htable
  · rw [hother fd hi] at hused htable ⊢
    exact h fd h2 h8 hused htable

/-- An event of the running process moves a position by what has been read. -/
theorem FdEffect.positionsAt {img : Image} {s s' : FsState} {e : FsEvent} {act : Option FdAct}
    (heffect : FdEffect img s e act s') (h : PositionsAt img s.mainProcess s) :
    PositionsAt img s.mainProcess s' := by
  cases heffect with
  | quiet e s' hfdt =>
    intro fd h2 h8 hused htable
    rw [hfdt _ fd (by omega)] at hused htable ⊢
    exact h fd h2 h8 hused htable
  | opened filename i hrefused hfree =>
    refine h.change (fun fd hne => took_fdt_other _ _ _ fun hloc => hne hloc.2) ?_
    intro _ _ _ htable
    rw [took_fdt_self, occupy_fOps] at htable
    rw [took_fdt_self]
    -- only `file_open` sets the position, and only a file needs it
    have hzero : (occupy img filename (s.fdt s.mainProcess i)).filePos = 0 := by
      rcases openTable_cases img filename with hnone | hdir | hfile
      · rw [hnone] at htable
        cases htable
      · rw [hdir] at htable
        cases htable
      · unfold occupy
        rw [hfile]
        rfl
    rw [hzero]
    exact posOk_zero img _
  | closedFile i h0 h8 htable hused =>
    refine h.change (i := i) (fun fd hne => modifyFd_of_ne s.entered fun hloc => hne hloc.2) ?_
    intro _ _ hflags _
    rw [modifyFd_same] at hflags
    exact absurd rfl hflags
  | closedDir i h0 h8 htable hused =>
    refine h.change (i := i) (fun fd hne => modifyFd_of_ne s.entered fun hloc => hne hloc.2) ?_
    intro _ _ hflags _
    rw [modifyFd_same] at hflags
    exact absurd rfl hflags
  | closedRtc i h0 h8 htable => exact h
  | moved i bufNull nbytes ret h0 h8 htable hused hn hne hret =>
    refine h.change (i := i) (fun fd hne => modifyFd_of_ne s.entered fun hloc => hne hloc.2) ?_
    intro h2 _ _ _
    have hnext := (fileRecord_contract hn (h i h2 h8 hused htable)).2
    rw [← hret] at hnext
    rw [modifyFd_same]
    exact hnext hne
  | advanced i bufNull nbytes h0 h8 htable hused hpos =>
    refine h.change (i := i) (fun fd hne => modifyFd_of_ne s.entered fun hloc => hne hloc.2) ?_
    intro _ _ _ hfile
    rw [modifyFd_same] at hfile
    have hdir : (s.fdt s.mainProcess i).fOps = .file := hfile
    rw [htable] at hdir
    cases hdir

theorem positionsOk_step (img : Image) {c : FsState × (Int → Option FdLog)} (hc : LogsAgree c)
    (hpos : PositionsOk img c) (e : FsEvent) : PositionsOk img (fdStep img c e) := by
  have hkeeps : ∀ p log, (fdStep img c e).2 p = some log → PositionsAt img p (fdStep img c e).1 := by
    apply fdStep_keeps img (P := fun p s _ => PositionsAt img p s)
    · -- nothing is open
      intro p s fd h2 h8 hused
      change ((createFds p s).fdt p fd).flags ≠ 0 at hused
      rw [createFds_free s p h2 h8] at hused
      exact absurd rfl hused
    · intro p s s' _ hfdt h
      exact h.same hfdt
    · intro log hcreate hlog h
      exact (hc.effect img hlog hcreate).positionsAt h
    · intro p log hlog
      exact hpos p (by rw [hlog]; exact Option.some_ne_none log)
  intro p hp
  obtain ⟨log, hlog⟩ := Option.ne_none_iff_exists'.mp hp
  exact hkeeps p log hlog

/-- **Every run** keeps the positions within the files. -/
theorem posOk_run (img : Image) (s : FsState) (es : List FsEvent) :
    PositionsOk img (run (fdStep img) (s, noLogs) es) := by
  have hinv : LogsAgree _ ∧ PositionsOk img (run (fdStep img) (s, noLogs) es) := invariant_always
    (I := fun c => LogsAgree c ∧ PositionsOk img c)
    (fun c e hI => ⟨logsAgree_step img hI.1 e, positionsOk_step img hI.1 hI.2 e⟩)
    ⟨logsAgree_noLogs s, fun p hp => absurd rfl hp⟩ es
  exact hinv.2

/-! ## Lines -/

/-- What a read has copied, or is about to return, has a newline at its end only. -/
def CopyEnds : ReadPhase → Prop
  | .copy _ copied => 10 ∉ copied
  | .clear _ line => ∃ copied, line = copied ++ [10] ∧ 10 ∉ copied
  | _ => True

theorem copyEnds_step (img : Image) {x : LineSystem} (hx : ∀ p, CopyEnds (x.phase p)) (e : LineEvent)
    (p : Int) : CopyEnds ((lineStep img x e).phase p) := by
  have hmove : ∀ q ph, CopyEnds ph → CopyEnds (Function.update x.phase q ph p) := by
    intro q ph hph
    by_cases hp : p = q
    · rw [hp, Function.update_self]
      exact hph
    · rw [Function.update_of_ne hp]
      exact hx p
  cases e with
  | key c entered => exact hx p
  | schedule processNum mainProcess currTask => exact hx p
  | read q =>
    unfold lineStep
    dsimp only
    split
    · exact hmove q .poll trivial
    · exact hx p
  | step q =>
    unfold lineStep readStep
    dsimp only
    cases hphase : x.phase q with
    | idle => exact hx p
    | poll =>
      dsimp only
      split
      · exact hmove q _ trivial
      · exact hmove q _ trivial
    | check a =>
      dsimp only
      split
      · exact hmove q _ trivial
      · exact hmove q _ trivial
    | test a =>
      dsimp only
      split
      · exact hmove q _ (List.not_mem_nil)
      · exact hmove q _ trivial
    | copy a copied =>
      have hq := hx q
      rw [hphase] at hq
      dsimp only
      split
      · exact hmove q _ ⟨copied, rfl, hq⟩
      · rename_i hne
        apply hmove q
        change 10 ∉ copied ++ [_]
        rw [List.mem_append, List.mem_singleton]
        rintro (hmem | heq)
        · exact hq hmem
        · exact hne heq.symm
    | clear a line => exact hmove q .idle trivial

/-- A line that a `terminal_read` has copied, in some run of the keyboard and the reads, when it is
about to return it. -/
def LineTaken (img : Image) (line : List UInt8) : Prop :=
  ∃ k es q a, (run (lineStep img) (.start k) es).phase q = .clear a line

/-- **Every run**: the line that a read returns ends at its first newline. -/
theorem line_run {img : Image} {line : List UInt8} (h : LineTaken img line) :
    ∃ copied, line = copied ++ [10] ∧ 10 ∉ copied := by
  obtain ⟨k, es, q, a, hphase⟩ := h
  have hends : ∀ p, CopyEnds ((run (lineStep img) (.start k) es).phase p) :=
    invariant_always (I := fun x : LineSystem => ∀ p, CopyEnds (x.phase p))
      (fun _ e hx => copyEnds_step img hx e) (s := .start k) (fun _ => trivial) es
  have hq := hends q
  rw [hphase] at hq
  exact hq

/-- `my_strlen(s)`: the characters up to the first newline, and the newline. -/
def myStrlen : List UInt8 → Nat
  | [] => 0
  | c :: s => if c = 10 then 1 else myStrlen s + 1

theorem myStrlen_line {copied : List UInt8} (h : 10 ∉ copied) :
    myStrlen (copied ++ [10]) = (copied ++ [10]).length := by
  induction copied with
  | nil => rfl
  | cons c copied ih =>
    have hc : c ≠ 10 := fun heq => h (heq ▸ List.mem_cons_self)
    rw [List.cons_append, myStrlen, if_neg hc, ih fun hmem => h (List.mem_cons_of_mem c hmem)]
    rfl

/-! ## The four kinds of read -/

/-- `terminal_read(fd, buf, nbytes)`, with the line that it has waited for. -/
def terminalRead (line : List UInt8) (fd : Int) : ReadResult :=
  if fd ≠ 0 then ⟨-1, []⟩ else ⟨myStrlen line, line⟩

/-- `rtc_read(fd, buf, nbytes)`, after the interrupt that it has waited for. -/
def rtcRead : ReadResult := ⟨0, []⟩

/-- What `system_read` returns and stores, whatever kind of descriptor it is called for. -/
def readOutcome (img : Image) (line : List UInt8) (fd : Int) (bufNull : Bool) (nbytes : Int)
    (s : FsState) : Option ReadResult :=
  match ((systemRead img fd bufNull nbytes).run accessSem s).1 with
  | .returned res => some res
  | .device .terminal => some (terminalRead line fd)
  | .device .rtc => some rtcRead
  | _ => none

/-- The line of a terminal fits, and a directory has not come to its end, or there is nothing behind it
to store. -/
def ReadFits (img : Image) (line : List UInt8) (fd : Int) (d : Fdt) (nbytes : Int) : Prop :=
  match d.fOps with
  | .terminal => fd = 0 → (line.length : Int) ≤ nbytes
  | .dir => d.filePos < img.dirCount ∨ nbytes = 0 ∨ img.filename d.filePos 0 = 0
  | _ => True

instance (img : Image) (line : List UInt8) (fd : Int) (d : Fdt) (nbytes : Int) :
    Decidable (ReadFits img line fd d nbytes) :=
  match htable : d.fOps with
  | .terminal => decidable_of_iff (fd = 0 → (line.length : Int) ≤ nbytes) (by simp [ReadFits, htable])
  | .dir => decidable_of_iff
      (d.filePos < img.dirCount ∨ nbytes = 0 ∨ img.filename d.filePos 0 = 0) (by simp [ReadFits, htable])
  | .file | .rtc | .unset => isTrue (by simp [ReadFits, htable])

/-- A read of an open directory. -/
theorem dirRecord_contract_iff (img : Image) (pos : Int) {nbytes : Int} (h0 : 0 ≤ nbytes)
    (h31 : nbytes < 2147483648) :
    ReadContract nbytes (dirRecord img pos nbytes) ↔
      pos < img.dirCount ∨ nbytes = 0 ∨ img.filename pos 0 = 0 := by
  have hu : u32 nbytes = nbytes := u32_of_fits h0 (by omega)
  have hzero : nameLen img pos 32 0 = 0 ↔ img.filename pos 0 = 0 := by
    rw [nameLen]
    by_cases hfirst : img.filename pos ((0 : Nat) : Int) = 0
    · rw [if_pos hfirst]
      exact ⟨fun _ => hfirst, fun _ => rfl⟩
    · rw [if_neg hfirst]
      exact ⟨fun h => absurd h (Nat.succ_ne_zero _), fun h => absurd h hfirst⟩
  unfold ReadContract dirRecord
  dsimp only
  rw [hu, List.length_map, List.length_range, ← hzero]
  generalize nameLen img pos 32 0 = len
  by_cases hpos : pos < img.dirCount
  · rw [if_pos hpos]
    exact ⟨fun _ => .inl hpos, fun _ => by omega⟩
  · rw [if_neg hpos]
    omega

/-- **A read of an open descriptor**, by its kind. -/
theorem readOutcome_contract {img : Image} {c : FsState × (Int → Option FdLog)} (hc : LogsAgree c)
    (hpositions : PositionsOk img c) {line copied : List UInt8} (hline : line = copied ++ [10])
    (hcopied : 10 ∉ copied) (hcreated : c.2 c.1.mainProcess ≠ none) {fd : Int} (h0 : 0 ≤ fd)
    (h8 : fd < 8) (hopen : (c.1.fdt c.1.mainProcess fd).flags ≠ 0) {nbytes : Int} (hn : 0 ≤ nbytes)
    (h31 : nbytes < 2147483648) :
    ∃ res, readOutcome img line fd false nbytes c.1 = some res ∧
      (ReadContract nbytes res ↔ ReadFits img line fd (c.1.fdt c.1.mainProcess fd) nbytes) := by
  obtain ⟨log, hlog⟩ := Option.ne_none_iff_exists'.mp hcreated
  have hfds := hc _ log hlog
  unfold readOutcome ReadFits
  rw [systemRead_dispatch img h0 h8]
  cases htable : (c.1.fdt c.1.mainProcess fd).fOps with
  | file =>
    have h2 : 2 ≤ fd := hfds.two_le h0 (by rw [htable]; decide)
    have hpos := hpositions _ hcreated fd h2 h8 hopen htable
    refine ⟨_, rfl, ?_⟩
    have hread : ((fileRead img fd nbytes).run accessSem c.1.entered).1 = _ :=
      fileRead_open img h0 h8 hn hopen
    dsimp only
    rw [hread]
    exact ⟨fun _ => trivial, fun _ => (fileRecord_contract hn hpos).1⟩
  | dir =>
    refine ⟨_, rfl, ?_⟩
    have hread : ((dirRead img fd nbytes).run accessSem c.1.entered).1 = _ :=
      dirRead_open img h0 h8 nbytes hopen
    dsimp only
    rw [hread]
    exact dirRecord_contract_iff img _ hn h31
  | rtc => exact ⟨rtcRead, rfl, ⟨fun _ => trivial, fun _ => ⟨hn, fun _ => ⟨hn, rfl⟩⟩⟩⟩
  | terminal =>
    refine ⟨_, rfl, ?_⟩
    unfold terminalRead
    by_cases hstdin : fd = 0
    · have hlen : myStrlen line = line.length := by
        rw [hline]
        exact myStrlen_line hcopied
      rw [if_neg (not_not.mpr hstdin), hlen]
      exact ⟨fun h _ => h.1, fun h => ⟨h hstdin, fun _ => ⟨h hstdin, rfl⟩⟩⟩
    · rw [if_pos hstdin]
      exact ⟨fun _ h => absurd h hstdin, fun _ => ⟨hn, fun h => absurd h (by decide)⟩⟩
  | unset =>
    -- the table of an open descriptor has been set
    exfalso
    by_cases h2 : fd < 2
    · have hterminal := (hfds.std fd h0 h2).2.1
      rw [htable] at hterminal
      cases hterminal
    · have hkind := (hfds.entry fd (by omega) h8).kind hopen
      rw [htable] at hkind
      rcases hkind with h | h | h <;> cases h

/-! ## The contract -/

/-- `getargs` keeps to a buffer of `nbytes` bytes, and fails when the text and its terminator do not fit
there. -/
def GetargsContract (nbytes : Int) (args : CStr) (stored : Option CStr) : Prop :=
  (∀ text, stored = some text → (text.length : Int) + 1 ≤ nbytes) ∧
    (nbytes < args.length + 1 → stored = none)

theorem getargs_contract_iff (k : Kernel) (bufNull : Bool) (nbytes : Int) :
    GetargsContract nbytes k.argText (k.systemGetargs bufNull nbytes) ↔
      bufNull = true ∨ nbytes = 0 ∨ k.argText = [] ∨ (k.argText.length : Int) + 1 ≤ nbytes := by
  have hnone : GetargsContract nbytes k.argText none := by
    refine ⟨fun text htext => ?_, fun _ => rfl⟩
    cases htext
  unfold Kernel.systemGetargs
  by_cases hargs : bufNull = true ∨ nbytes = 0
  · rw [if_pos hargs]
    exact ⟨fun _ => by tauto, fun _ => hnone⟩
  rw [if_neg hargs]
  by_cases hempty : k.argText.length = 0
  · rw [if_pos hempty]
    exact ⟨fun _ => .inr (.inr (.inl (List.length_eq_zero_iff.mp hempty))), fun _ => hnone⟩
  · rw [if_neg hempty]
    constructor
    · intro h
      exact .inr (.inr (.inr (h.1 _ rfl)))
    · intro h
      have hfits : (k.argText.length : Int) + 1 ≤ nbytes := by
        rcases h with h | h | h | h
        · exact absurd (.inl h) hargs
        · exact absurd (.inr h) hargs
        · exact absurd (List.length_eq_zero_iff.mpr h) hempty
        · exact h
      refine ⟨fun text htext => ?_, fun hlt => by omega⟩
      rw [← Option.some.inj htext]
      exact hfits

/-- **The buffer of a read**: in every state that a run leads to, for every open descriptor of the
running process and every line that a read may have waited for, the read keeps to its buffer exactly when
the line fits and a directory has not come to its end; and so does `getargs` exactly when the argument
text fits or it fails anyway. -/
theorem read_contract_iff (img : Image) (s : FsState) (es : List FsEvent) (line : List UInt8)
    (hline : LineTaken img line) (fd : Int) (h0 : 0 ≤ fd) (h8 : fd < 8) (nbytes : Int) (hn : 0 ≤ nbytes)
    (h31 : nbytes < 2147483648)
    (hcreated : (run (fdStep img) (s, noLogs) es).2 (run (fdStep img) (s, noLogs) es).1.mainProcess ≠ none)
    (hopen : ((run (fdStep img) (s, noLogs) es).1.fdt
      (run (fdStep img) (s, noLogs) es).1.mainProcess fd).flags ≠ 0) :
    let c := run (fdStep img) (s, noLogs) es
    (∃ res, readOutcome img line fd false nbytes c.1 = some res ∧
      (ReadContract nbytes res ↔ ReadFits img line fd (c.1.fdt c.1.mainProcess fd) nbytes)) ∧
    readOutcome img line fd true nbytes c.1 = some ⟨-1, []⟩ ∧
    ∀ (k : Kernel) (bufNull : Bool), GetargsContract nbytes k.argText (k.systemGetargs bufNull nbytes) ↔
      bufNull = true ∨ nbytes = 0 ∨ k.argText = [] ∨ (k.argText.length : Int) + 1 ≤ nbytes := by
  intro c
  obtain ⟨copied, hends, hcopied⟩ := line_run hline
  refine ⟨?_, ?_, fun k bufNull => getargs_contract_iff k bufNull nbytes⟩
  · exact readOutcome_contract (logsAgree_run img s es) (posOk_run img s es) hends hcopied hcreated h0 h8
      hopen hn h31
  · unfold readOutcome systemRead
    rw [if_pos (.inl rfl)]
    rfl

/-- One key and Enter are typed, and a process reads the line. -/
def typedLine : List LineEvent :=
  [.schedule (fun _ => 0) 0 (fun _ => 0), .key 0x1E false, .key 0x1C false, .read 0, .step 0, .step 0,
    .step 0, .step 0, .step 0]

theorem typedLine_taken : LineTaken sampleImage [97, 10] :=
  ⟨sampleConsole, typedLine, 0, 0, by decide +kernel⟩

/-- The line fits into two bytes. -/
theorem read_contract_iff_sample :
    let c := run (fdStep sampleImage) (sampleFs, noLogs) [.create 0]
    ∃ res, readOutcome sampleImage [97, 10] 0 false 2 c.1 = some res ∧ ReadContract 2 res := by
  intro c
  obtain ⟨res, hres, hcontract⟩ := (read_contract_iff sampleImage sampleFs [.create 0] [97, 10]
    typedLine_taken 0 (by decide) (by decide) 2 (by decide) (by decide) (by decide +kernel)
    (by decide +kernel)).1
  exact ⟨res, hres, hcontract.mpr (by decide +kernel)⟩

/-- A process reads one byte from its terminal, and two are stored. -/
theorem read_overruns :
    let c := run (fdStep sampleImage) (sampleFs, noLogs) [.create 0]
    LineTaken sampleImage [97, 10] ∧
      readOutcome sampleImage [97, 10] 0 false 1 c.1 = some ⟨2, [97, 10]⟩ ∧
      ¬ ReadContract 1 ⟨2, [97, 10]⟩ :=
  ⟨typedLine_taken, by decide +kernel, by decide +kernel⟩

end SrirachOS
