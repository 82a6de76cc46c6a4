import SrirachOS.FileSys.Names

/-!
# Listing a Directory

Successive calls of `dir_read` on one descriptor. Each call delivers one entry and moves the position
to the next; at the last one it stays.

- `dirRead_run`: one call, with the position it leaves,
- `dirReads_run`: the calls after each other,
- `directory_enumerated`: hence every entry from the position on is delivered once, in order.
-/

namespace SrirachOS

open Foundation FsProg

/-! ## One call -/

/-- Descriptor `fd` of the process is open on a directory, at position `pos`. -/
structure DirAt (fd : Int) (s : FsState) (pos : Nat) : Prop where
  fd_nonneg : 0 ≤ fd
  fd_lt : fd < 8
  occupied : (s.fdt s.currPcb fd).flags ≠ 0
  pos_eq : (s.fdt s.currPcb fd).filePos = pos

/-- The position after a call. -/
def nextPos (img : Image) (pos : Nat) : Nat := if (pos : Int) < img.dirCount then pos + 1 else pos

/-- **One `dir_read`**: it delivers the entry at the position and goes on to the next. -/
theorem dirRead_run (img : Image) {fd : Int} {s : FsState} {pos : Nat} (hdir : DirAt fd s pos)
    (nbytes : Int) :
    ∃ s', (dirRead img fd nbytes).run accessSem s = (dirRecord img pos nbytes, s') ∧
      s'.currPcb = s.currPcb ∧ DirAt fd s' (nextPos img pos) := by
  have hres := dirRead_open img hdir.fd_nonneg hdir.fd_lt nbytes hdir.occupied
  rw [hdir.pos_eq] at hres
  refine ⟨_, Prod.ext hres rfl, ?_⟩
  have hfd : ¬ (fd ≥ 8 ∨ fd < 0) := by
    have h0 := hdir.fd_nonneg
    have h8 := hdir.fd_lt
    omega
  have hcount : img.dirCount < 2147483648 := img.word_lt 0
  unfold dirRead nextPos
  rw [run_currFd]
  dsimp only
  rw [if_neg hfd, run_bitmapOpen, decide_eq_false hdir.occupied, if_neg Bool.false_ne_true, run_currFd]
  by_cases hend : (s.fdt s.currPcb fd).filePos < img.dirCount
  · have hpos := hend
    rw [hdir.pos_eq] at hpos
    have hnext : i32 ((pos : Int) + 1) = ((pos + 1 : Nat) : Int) := by
      rw [i32_of_fits (by omega) (by omega)]
      push_cast
      rfl
    rw [if_pos hend, if_pos hpos, run_currPcb, run_fdOf, run_setFilePos]
    refine ⟨rfl, hdir.fd_nonneg, hdir.fd_lt, ?_, ?_⟩
    · simpa using hdir.occupied
    · simpa [hdir.pos_eq] using hnext
  · have hpos := hend
    rw [hdir.pos_eq] at hpos
    rw [if_neg hend, if_neg hpos]
    exact ⟨rfl, hdir⟩

/-! ## Successive calls -/

/-- One `dir_read` after the other. -/
def dirReads (img : Image) (fd : Int) : List Int → FsProg (List ReadResult)
  | [] => pure []
  | n :: ns => do
    let res ← dirRead img fd n
    let rest ← dirReads img fd ns
    pure (res :: rest)

/-- **The calls after each other**, from a position up to the end of the directory. -/
theorem dirReads_run (img : Image) {fd : Int} (ns : List Int) {s : FsState} {pos : Nat}
    (hdir : DirAt fd s pos) (hpos : (pos : Int) ≤ img.dirCount) :
    ∃ s', (dirReads img fd ns).run accessSem s =
        (ns.mapIdx fun k n => dirRecord img (min ((pos + k : Nat) : Int) img.dirCount) n, s') ∧
      DirAt fd s' (min (pos + ns.length) img.dirCount.toNat) := by
  induction ns generalizing s pos with
  | nil =>
    have hhere : min (pos + 0) img.dirCount.toNat = pos := by omega
    refine ⟨s, rfl, ?_⟩
    rw [List.length_nil, hhere]
    exact hdir
  | cons n ns ih =>
    obtain ⟨s₁, hrun, -, hdir₁⟩ := dirRead_run img hdir n
    have hnext : (nextPos img pos : Int) = min ((pos + 1 : Nat) : Int) img.dirCount := by
      unfold nextPos
      split <;> omega
    obtain ⟨s', hrest, hdir'⟩ := ih hdir₁ (by omega)
    refine ⟨s', ?_, ?_⟩
    · rw [dirReads, Prog.run_bind, hrun, Prog.run_bind, hrest, List.mapIdx_cons]
      -- the answer to this call, and those to the calls from the next position on
      have hfirst : min ((pos + 0 : Nat) : Int) img.dirCount = pos := by omega
      have hlater : ∀ k : Nat, min ((nextPos img pos + k : Nat) : Int) img.dirCount =
          min ((pos + (k + 1) : Nat) : Int) img.dirCount := by
        intro k
        omega
      simp only [hfirst, hlater]
      rfl
    · have hend : min (nextPos img pos + ns.length) img.dirCount.toNat =
          min (pos + (n :: ns).length) img.dirCount.toNat := by
        rw [List.length_cons]
        omega
      rwa [hend] at hdir'

/-- **The directory is enumerated**: from a position `p` up to the number of entries, the `k`-th of
any sequence of calls with positive sizes returns as much as was asked for of the name of entry
`p + k`, as long as there is such an entry. All later calls return 0, and the position stays at the
number of entries. -/
theorem directory_enumerated (img : Image) (fd : Int) (h0 : 0 ≤ fd) (h8 : fd < 8) (s : FsState)
    (hopen : (s.fdt s.currPcb fd).flags ≠ 0) (p : Nat) (hp : (s.fdt s.currPcb fd).filePos = p)
    (hcount : (p : Int) ≤ img.dirCount) (ns : List Int) (hns : ∀ n ∈ ns, 0 < n ∧ n < 2147483648) :
    let calls := (dirReads img fd ns).run accessSem s
    calls.1.length = ns.length ∧
    (∀ (k : Nat) (n : Int) (res : ReadResult), ns[k]? = some n → calls.1[k]? = some res →
      if ((p + k : Nat) : Int) < img.dirCount then
        res = ⟨min ((img.entryName (p + k : Nat)).length : Int) n,
          (img.entryName (p + k : Nat)).take n.toNat⟩
      else res.ret = 0) ∧
    (calls.2.fdt calls.2.currPcb fd).filePos = min ((p + ns.length : Nat) : Int) img.dirCount := by
  obtain ⟨s', hrun, hdir⟩ := dirReads_run img ns ⟨h0, h8, hopen, hp⟩ hcount
  intro calls
  have hcalls : calls = _ := hrun
  rw [hcalls]
  refine ⟨by simp, ?_, ?_⟩
  · intro k n res hn hres
    -- the `k`-th call finds the position moved by `k`, or at the end
    have hmem : n ∈ ns := List.mem_of_getElem? hn
    obtain ⟨hpos, hlt⟩ := hns n hmem
    dsimp only at hres
    rw [List.getElem?_mapIdx, hn, Option.map_some, Option.some.injEq] at hres
    rw [← hres]
    split
    · next hlive =>
      have hhere : min ((p + k : Nat) : Int) img.dirCount = (p + k : Nat) := by omega
      rw [hhere, dirRecord_take img hlive (by omega) (by omega)]
    · next hend =>
      have hhere : min ((p + k : Nat) : Int) img.dirCount = img.dirCount := by omega
      rw [hhere]
      exact if_neg (by omega)
  · rw [hdir.pos_eq]
    omega

/-- The names of the last two entries, the first of them cut after its first byte, and two calls
more. -/
theorem directory_enumerated_sample :
    let s : FsState := ⟨0, 0, ⟨fun _ => 0, 0, 0⟩, fun _ _ => ⟨.dir, 0, 2, 1⟩⟩
    let calls := (dirReads sampleImage 2 [1, 32, 32, 1]).run accessSem s
    (calls.2.fdt calls.2.currPcb 2).filePos = 4 :=
  (directory_enumerated sampleImage 2 (by decide) (by decide) _ (by decide) 2 rfl (by decide +kernel)
    [1, 32, 32, 1] (by decide)).2.2.trans (by decide +kernel)

end SrirachOS
