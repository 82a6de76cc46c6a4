import Mathlib

/-!
# Blocks of a Wrapping Memory

The addresses of a memory are words, and wrap. A block is filled, and a block is copied to another, which
may overlap it: all at once, or in pieces from the lowest on.

- `fill_add`, `copy_zero`: blocks and their parts,
- `copyPieces_eq_copy_iff`: where a copy in pieces is a copy,
- `copyDown_eq_copy`: the copy from the highest byte on.
-/

namespace Foundation.Blocks

variable {w : Nat} {α : Type*} {d s x : BitVec w} {n k : Nat} {v : α} {mem : BitVec w → α}

/-- The block of `n` places from `d` on holds `v`. -/
def fill (d : BitVec w) (n : Nat) (v : α) (mem : BitVec w → α) : BitVec w → α := fun x =>
  if (x - d).toNat < n then v else mem x

/-- The block of `n` places from `d` on holds what that from `s` on did. -/
def copy (d s : BitVec w) (n : Nat) (mem : BitVec w → α) : BitVec w → α := fun x =>
  if (x - d).toNat < n then mem (s + (x - d)) else mem x

/-- A copy in pieces, each of them read at once. -/
def copyPieces : List Nat → BitVec w → BitVec w → (BitVec w → α) → BitVec w → α
  | [], _, _, mem => mem
  | k :: ks, d, s, mem => copyPieces ks (d + .ofNat w k) (s + .ofNat w k) (copy d s k mem)

/-- A copy place by place, from the highest on. -/
def copyDown (d s : BitVec w) : Nat → (BitVec w → α) → BitVec w → α
  | 0, mem => mem
  | n + 1, mem => copyDown d s n (copy (d + .ofNat w n) (s + .ofNat w n) 1 mem)

/-! ## Offsets -/

/-- A difference wraps, or does not. -/
theorem toNat_sub_cases (x d : BitVec w) :
    d.toNat ≤ x.toNat ∧ (x - d).toNat = x.toNat - d.toNat ∨
      x.toNat < d.toNat ∧ (x - d).toNat = 2 ^ w + x.toNat - d.toNat := by
  have hx := x.isLt
  have hd := d.isLt
  rw [BitVec.toNat_sub]
  obtain hle | hlt := Nat.lt_or_ge x.toNat d.toNat
  · exact .inr ⟨hle, by rw [Nat.mod_eq_of_lt (by omega)]; omega⟩
  · refine .inl ⟨hlt, ?_⟩
    have hsum : 2 ^ w - d.toNat + x.toNat = x.toNat - d.toNat + 2 ^ w := by omega
    rw [hsum, Nat.add_mod_right, Nat.mod_eq_of_lt (by omega)]

/-- The offset from a place further on. -/
theorem offset_cases (hk : k ≤ 2 ^ w) (x d : BitVec w) :
    k ≤ (x - d).toNat ∧ (x - (d + .ofNat w k)).toNat = (x - d).toNat - k ∨
      (x - d).toNat < k ∧ (x - (d + .ofNat w k)).toNat = 2 ^ w + (x - d).toNat - k := by
  have hx := (x - d).isLt
  rw [← BitVec.sub_sub]
  obtain rfl | hlt := Nat.eq_or_lt_of_le hk
  · have hzero : BitVec.ofNat w (2 ^ w) = 0#w :=
      BitVec.eq_of_toNat_eq (by rw [BitVec.toNat_ofNat, Nat.mod_self]; exact (BitVec.toNat_zero).symm)
    rw [hzero, BitVec.sub_zero, Nat.add_sub_cancel_left]
    exact .inr ⟨hx, rfl⟩
  · have hword : (BitVec.ofNat w k).toNat = k := by simp [Nat.mod_eq_of_lt hlt]
    simpa [hword] using toNat_sub_cases (x - d) (.ofNat w k)

theorem toNat_offset {i : Nat} (hi : i < 2 ^ w) (d : BitVec w) : (d + .ofNat w i - d).toNat = i := by
  rw [BitVec.add_comm, BitVec.add_sub_cancel]
  simp [Nat.mod_eq_of_lt hi]

/-- Every address is at its offset. -/
theorem add_offset (s : BitVec w) (k : Nat) (x d : BitVec w) :
    s + .ofNat w k + (x - (d + .ofNat w k)) = s + (x - d) := by
  rw [← BitVec.sub_sub, BitVec.add_assoc, BitVec.add_comm (.ofNat w k), BitVec.sub_add_cancel]

/-! ## Blocks -/

@[simp] theorem fill_zero : fill d 0 v mem = mem := by
  funext x
  simp [fill]

@[simp] theorem copy_zero : copy d s 0 mem = mem := by
  funext x
  simp [copy]

/-- A block is filled part by part. -/
theorem fill_add (h : k + n ≤ 2 ^ w) :
    fill (d + .ofNat w k) n v (fill d k v mem) = fill d (k + n) v mem := by
  funext x
  have hx := (x - d).isLt
  simp only [fill]
  obtain ⟨hle, hoffset⟩ | ⟨hlt, hoffset⟩ := offset_cases (show k ≤ 2 ^ w by omega) x d
  · rw [hoffset, if_neg (show ¬(x - d).toNat < k by omega)]
    exact if_congr (by omega) rfl rfl
  · rw [hoffset, if_neg (by omega), if_pos hlt, if_pos (by omega)]

theorem copy_self : copy d d n mem = mem := by
  funext x
  rw [copy, BitVec.add_comm, BitVec.sub_add_cancel, ite_self]

theorem copy_of_le (h : n ≤ (x - d).toNat) : copy d s n mem x = mem x := if_neg (by omega)

/-- A block is copied part by part, if the first part does not reach what the second one reads. -/
theorem copy_add (h : k + n ≤ 2 ^ w) (hsrc : d = s ∨ k + n ≤ (d - s).toNat) :
    copy (d + .ofNat w k) (s + .ofNat w k) n (copy d s k mem) = copy d s (k + n) mem := by
  obtain rfl | hfar := hsrc
  · simp only [copy_self]
  funext x
  have hx := (x - d).isLt
  obtain ⟨hle, hoffset⟩ | ⟨hlt, hoffset⟩ := offset_cases (show k ≤ 2 ^ w by omega) x d
  · rw [copy, hoffset]
    by_cases hin : (x - d).toNat < k + n
    · -- what is read is not in the first part
      have hread : k ≤ (s + (x - d) - d).toNat := by
        have hsub : s + (x - d) - d = x - d - (d - s) := by grind
        rw [hsub]
        have hd := (d - s).isLt
        obtain ⟨hle', -⟩ | ⟨-, heq⟩ := toNat_sub_cases (x - d) (d - s)
        · omega
        · omega
      rw [if_pos (by omega), add_offset, copy_of_le hread, copy, if_pos hin]
    · rw [if_neg (by omega), copy_of_le (by omega), copy, if_neg hin]
  · rw [copy_of_le (by omega), copy, if_pos hlt, copy, if_pos (by omega)]

/-! ## Copies in pieces -/

theorem copyPieces_append (front rest : List Nat) (d s : BitVec w) (mem : BitVec w → α) :
    copyPieces (front ++ rest) d s mem =
      copyPieces rest (d + .ofNat w front.sum) (s + .ofNat w front.sum) (copyPieces front d s mem) := by
  induction front generalizing d s mem with
  | nil => simp [copyPieces]
  | cons k front ih =>
    simp only [List.cons_append, copyPieces, ih, List.sum_cons, BitVec.ofNat_add, BitVec.add_assoc]

/-- A copy in pieces of a block that does not reach what is still to be read is a copy. -/
theorem copyPieces_eq_copy {ks : List Nat} (hsum : ks.sum ≤ 2 ^ w)
    (hsrc : d = s ∨ ks.sum ≤ (d - s).toNat) : copyPieces ks d s mem = copy d s ks.sum mem := by
  induction ks generalizing d s mem with
  | nil => simp [copyPieces]
  | cons k ks ih =>
    rw [List.sum_cons] at hsum hsrc
    have hsame : d + .ofNat w k - (s + .ofNat w k) = d - s := by grind
    have hlater : d + .ofNat w k = s + .ofNat w k ∨
        ks.sum ≤ (d + .ofNat w k - (s + .ofNat w k)).toNat := by
      rw [hsame]
      exact hsrc.imp (fun h => by rw [h]) (by omega)
    rw [copyPieces, ih (by omega) hlater, copy_add hsum hsrc, List.sum_cons]

/-- What is at an offset in the block after a copy. -/
theorem copy_at {i : Nat} (hi : i < n) (hn : n ≤ 2 ^ w) :
    copy d s n mem (d + .ofNat w i) = mem (s + .ofNat w i) := by
  have hword : d + .ofNat w i - d = .ofNat w i := by grind
  rw [copy, toNat_offset (by omega), if_pos hi, hword]

/-- A later piece reads what an earlier one has written: the block then repeats itself. -/
theorem copyPieces_stale {front : List Nat} {i : Nat} (hsum : (front ++ [k]).sum ≤ 2 ^ w)
    (hlow : front.sum ≤ i) (hhigh : i < front.sum + k) (hreach : (d - s).toNat ≤ i)
    (hread : i - (d - s).toNat < front.sum) :
    copyPieces (front ++ [k]) d s mem (d + .ofNat w i) =
      copyPieces (front ++ [k]) d s mem (d + .ofNat w (i - (d - s).toNat)) := by
  simp only [List.sum_append, List.sum_singleton] at hsum
  obtain ⟨j, rfl⟩ := Nat.exists_eq_add_of_le hlow
  -- the source is in the block already written
  have hsource : s + .ofNat w (front.sum + j) =
      d + .ofNat w (front.sum + j - (d - s).toNat) := by
    have hback : BitVec.ofNat w (front.sum + j - (d - s).toNat) =
        .ofNat w (front.sum + j) - (d - s) := by
      have hsplit : BitVec.ofNat w (front.sum + j) =
          .ofNat w (front.sum + j - (d - s).toNat) + .ofNat w (d - s).toNat := by
        rw [← BitVec.ofNat_add, Nat.sub_add_cancel hreach]
      rw [hsplit, BitVec.ofNat_toNat, BitVec.setWidth_eq, BitVec.add_sub_cancel]
    rw [hback]
    grind
  have hbefore : copyPieces (front ++ [k]) d s mem
      (d + .ofNat w (front.sum + j - (d - s).toNat)) =
        copyPieces front d s mem (d + .ofNat w (front.sum + j - (d - s).toNat)) := by
    rw [copyPieces_append, copyPieces, copyPieces, copy_of_le]
    obtain ⟨hle, -⟩ | ⟨-, heq⟩ := offset_cases (show front.sum ≤ 2 ^ w by omega)
      (d + .ofNat w (front.sum + j - (d - s).toNat)) d
    · rw [toNat_offset (by omega)] at hle
      omega
    · rw [heq]
      omega
  rw [hbefore, ← hsource, copyPieces_append, copyPieces, copyPieces, BitVec.ofNat_add,
    ← BitVec.add_assoc, copy_at (by omega) (by omega), BitVec.add_assoc]

/-- **Where a copy in pieces is a copy**, whatever the memory holds: the block must not reach what is
still to be read, unless there is nothing to be read later. -/
theorem copyPieces_eq_copy_iff [Nontrivial α] {ks : List Nat} (hpos : ∀ k ∈ ks, 0 < k)
    (hsum : ks.sum ≤ 2 ^ w) :
    (∀ mem : BitVec w → α, copyPieces ks d s mem = copy d s ks.sum mem) ↔
      d = s ∨ ks.sum ≤ (d - s).toNat ∨ ks.length ≤ 1 := by
  constructor
  · intro h
    by_contra hnot
    simp only [not_or, Nat.not_le] at hnot
    obtain ⟨hne, hreach, hmany⟩ := hnot
    have hδ : 0 < (d - s).toNat := by
      rw [Nat.pos_iff_ne_zero]
      intro hzero
      have heq : d - s = 0 := BitVec.eq_of_toNat_eq (by simpa using hzero)
      exact hne (by grind)
    obtain ⟨front, k, hlast⟩ :=
      (List.eq_nil_or_concat ks).resolve_left (by rintro rfl; simp at hmany)
    rw [List.concat_eq_append] at hlast
    subst hlast
    have hfront : 0 < front.sum := by
      obtain ⟨k', hk'⟩ := List.exists_mem_of_ne_nil front (by rintro rfl; simp at hmany)
      exact List.sum_pos_iff_exists_pos_nat.mpr ⟨k', hk', hpos k' (by simp [hk'])⟩
    have hk : 0 < k := hpos k (by simp)
    simp only [List.sum_append, List.sum_singleton] at hsum hreach h
    have hstale (mem : BitVec w → α) :
        copyPieces (front ++ [k]) d s mem (d + .ofNat w (max front.sum (d - s).toNat)) =
          copyPieces (front ++ [k]) d s mem
            (d + .ofNat w (max front.sum (d - s).toNat - (d - s).toNat)) :=
      copyPieces_stale (by simpa using hsum) (by omega) (by omega) (by omega) (by omega)
    obtain ⟨a, b, hab⟩ := exists_pair_ne α
    have hdiff := hstale fun x => if x = s + .ofNat w (max front.sum (d - s).toNat) then a else b
    rw [h, copy_at (by omega) hsum, copy_at (by omega) hsum, if_pos rfl, if_neg] at hdiff
    · exact hab hdiff
    · intro heq
      have hword := congrArg BitVec.toNat ((BitVec.add_right_inj s).mp heq)
      rw [BitVec.toNat_ofNat, BitVec.toNat_ofNat, Nat.mod_eq_of_lt (by omega),
        Nat.mod_eq_of_lt (by omega)] at hword
      omega
  · rintro (h | h | h) mem
    · exact copyPieces_eq_copy hsum (.inl h)
    · exact copyPieces_eq_copy hsum (.inr h)
    · cases ks with
      | nil => simp [copyPieces]
      | cons k ks =>
        obtain rfl : ks = [] := by simpa using h
        simp [copyPieces]

/-- The copy from the highest place on, of a block that is not reached by what is still to be read. -/
theorem copyDown_eq_copy (hn : n ≤ 2 ^ w) (hsrc : d = s ∨ n ≤ (s - d).toNat) :
    copyDown d s n mem = copy d s n mem := by
  induction n generalizing mem with
  | zero => simp [copyDown]
  | succ n ih =>
    rw [copyDown, ih (by omega) (hsrc.imp_right (by omega))]
    funext x
    have hx := (x - d).isLt
    obtain ⟨hle, hoffset⟩ | ⟨hlt, hoffset⟩ := offset_cases (show n ≤ 2 ^ w by omega) x d
    · rw [copy_of_le hle, copy, copy, hoffset, add_offset]
      exact if_congr (by omega) rfl rfl
    · rw [copy, if_pos hlt, copy.eq_def d s (n + 1), if_pos (by omega)]
      obtain rfl | hfar := hsrc
      · rw [copy_self]
      · -- the highest place is behind what is read
        refine copy_of_le (Nat.pos_iff_ne_zero.mpr fun hzero => ?_)
        have hmeet : s + (x - d) - (d + .ofNat w n) = 0 := BitVec.eq_of_toNat_eq (by simpa using hzero)
        have hback : x - d = .ofNat w n - (s - d) := by grind
        have hword : (BitVec.ofNat w n).toNat = n := by
          rw [BitVec.toNat_ofNat, Nat.mod_eq_of_lt (by omega)]
        have hs := (s - d).isLt
        obtain ⟨hle, -⟩ | ⟨-, heq⟩ := toNat_sub_cases (.ofNat w n) (s - d)
        · omega
        · rw [← hback, hword] at heq
          omega

end Foundation.Blocks
