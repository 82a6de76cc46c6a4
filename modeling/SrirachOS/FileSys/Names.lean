import SrirachOS.FileSys.Unopened
import Mathlib.Data.List.GetD
import Mathlib.Data.List.TakeWhile
import Mathlib.Data.Nat.Find

/-!
# Names

What the lookups by name and the listing of the directory say about each other. A directory entry
holds 32 bytes: the name, filled up with zeros, or without any when it takes all of them.

- `nameMatches_iff`: a request matches an entry when it is its name, and no byte of it is 128 or
  more; the lookups compare unsigned with signed characters,
- `lookup_exact_iff`: which lookups find the first live entry with the name, and nothing else,
- `dirRecord_take`: what `dir_read` delivers of an entry,
- `listing_resolves_iff`: so what the directory lists is found again exactly when its bytes are
  below 128.
-/

namespace SrirachOS

open Foundation FsProg

/-- The characters of a C string before its terminator. -/
def CStr.text (s : CStr) : List UInt8 := s.takeWhile (· ≠ 0)

/-- The name of an entry. -/
def Image.entryName (img : Image) (index : Int) : List UInt8 :=
  ((List.range 32).map fun k => img.filename index (k : Nat)).takeWhile (· ≠ 0)

/-- Every byte is the same as a signed and as an unsigned character. -/
def Ascii (name : List UInt8) : Prop := ∀ b ∈ name, b.toNat < 128

instance (name : List UInt8) : Decidable (Ascii name) :=
  inferInstanceAs (Decidable (∀ b ∈ name, b.toNat < 128))

theorem CStr.text_of_nonzero {s : CStr} (h : ∀ b ∈ s, b ≠ 0) : s.text = s :=
  List.takeWhile_eq_self_iff.mpr fun b hb => by simpa using h b hb

theorem entryName_length_le (img : Image) (index : Int) : (img.entryName index).length ≤ 32 := by
  have hle := (List.takeWhile_sublist (l := (List.range 32).map fun k => img.filename index (k : Nat))
    fun b : UInt8 => b ≠ 0).length_le
  rw [List.length_map, List.length_range] at hle
  exact hle

theorem entryName_nonzero (img : Image) (index : Int) : ∀ b ∈ img.entryName index, b ≠ 0 := by
  intro b hb
  simpa using List.mem_takeWhile_imp hb

/-! ## One comparison -/

/-- A character and a byte of an entry are equal as `int`s. -/
theorem char_eq_i8 (a b : UInt8) : (a.toNat : Int) = i8 b ↔ a = b ∧ a.toNat < 128 := by
  have ha := a.toNat_lt
  have hb := b.toNat_lt
  rw [UInt8.ext_iff]
  unfold i8
  split <;> omega

/-- The bytes of an entry from `k` on, up to the first zero. -/
def nameFrom (img : Image) (index : Int) (k turns : Nat) : List UInt8 :=
  ((List.range' k turns).map fun j => img.filename index (j : Nat)).takeWhile (· ≠ 0)

theorem nameFrom_succ (img : Image) (index : Int) (k turns : Nat) :
    nameFrom img index k (turns + 1) =
      if img.filename index (k : Nat) = 0 then []
      else img.filename index (k : Nat) :: nameFrom img index (k + 1) turns := by
  unfold nameFrom
  rw [List.range'_succ, List.map_cons, List.takeWhile_cons]
  by_cases hzero : img.filename index (k : Nat) = 0
  · simp [hzero]
  · simp [hzero]

theorem text_drop (s : CStr) (k : Nat) :
    CStr.text (s.drop k) = if s.char k = 0 then [] else s.char k :: CStr.text (s.drop (k + 1)) := by
  unfold CStr.text CStr.char
  by_cases hk : k < s.length
  · rw [List.drop_eq_getElem_cons hk, List.takeWhile_cons, List.getD_eq_getElem _ _ hk]
    by_cases hzero : s[k] = 0
    · simp [hzero]
    · simp [hzero]
  · have hnil : s.drop k = [] := List.drop_eq_nil_of_le (by omega)
    rw [hnil, List.getD_eq_default _ _ (by omega)]
    simp

theorem ascii_cons {b : UInt8} {name : List UInt8} :
    Ascii (b :: name) ↔ b.toNat < 128 ∧ Ascii name := List.forall_mem_cons

/-- The loop over the characters from `k` on. The request may end before the entry's 32 bytes do, or
with them. -/
theorem nameMatches_from (img : Image) (fname : CStr) (index turns k : Nat) (hk : k + turns = 31) :
    nameMatches img fname index (turns + 1) k = true ↔
      CStr.text (fname.drop k) = nameFrom img index k (turns + 1) ∧
        Ascii (CStr.text (fname.drop k)) := by
  induction turns generalizing k with
  | zero =>
    have hk : k = 31 := by omega
    rw [hk, nameMatches, text_drop, nameFrom_succ]
    simp only [ne_eq, char_eq_i8]
    have hlast : CStr.text (fname.drop (31 + 1)) = [] ↔ fname.char (31 + 1) = 0 := by
      rw [text_drop]
      split <;> simp_all
    have hnil : nameFrom img index (31 + 1) 0 = [] := rfl
    rw [hnil, nameMatches]
    generalize fname.char 31 = a
    generalize img.filename index (31 : Nat) = b
    generalize CStr.text (fname.drop (31 + 1)) = rest at hlast
    by_cases ha : a = 0
    · by_cases hb : b = 0
      · simp [ha, hb, Ascii]
      · simp [ha, hb, Ne.symm hb]
    · by_cases hb : b = 0
      · simp [ha, hb]
      · by_cases hend : fname.char (31 + 1) = 0
        · simp [ha, hb, hend, hlast.mpr hend, Ascii]
        · simp [ha, hb, hend, mt hlast.mp hend]
  | succ turns ih =>
    have hne : k ≠ 31 := by omega
    rw [nameMatches, text_drop, nameFrom_succ]
    simp only [ne_eq, char_eq_i8]
    have hrest := ih (k + 1) (by omega)
    generalize fname.char k = a
    generalize img.filename index (k : Nat) = b
    generalize CStr.text (fname.drop (k + 1)) = rest at hrest
    by_cases ha : a = 0
    · by_cases hb : b = 0
      · simp [ha, hb, Ascii]
      · simp [ha, hb, Ne.symm hb]
    · by_cases hb : b = 0
      · simp [ha, hb]
      · simp only [ha, hb, hne, false_and, or_false, if_false, ascii_cons, List.cons.injEq]
        split
        · rename_i hdiffers
          simp only [Bool.false_eq_true, false_iff]
          tauto
        · rename_i hsame
          rw [hrest]
          tauto

/-- **A request matches an entry** when it is its name, in bytes below 128. -/
theorem nameMatches_iff (img : Image) (fname : CStr) (index : Nat) :
    nameMatches img fname index 32 0 = true ↔ fname.text = img.entryName index ∧ Ascii fname.text := by
  have hfrom := nameMatches_from img fname index 31 0 (by omega)
  have hname : nameFrom img index 0 32 = img.entryName index := by
    unfold nameFrom Image.entryName
    rw [List.range_eq_range']
  rw [hname, List.drop_zero] at hfrom
  exact hfrom

/-! ## The lookups -/

/-- The entry that a name is resolved to. -/
def resolved (img : Image) (fname : CStr) : Option Nat :=
  if fname.strlen > 32 then none else findEntry img fname 63 0

/-- The search ends at the first entry that matches. -/
theorem findEntry_eq_some_iff {img : Image} {fname : CStr} {turns start index : Nat} :
    findEntry img fname turns start = some index ↔
      start ≤ index ∧ index < start + turns ∧ nameMatches img fname index 32 0 = true ∧
        ∀ j, start ≤ j → j < index → nameMatches img fname j 32 0 = false := by
  induction turns generalizing start with
  | zero =>
    simp only [findEntry, reduceCtorEq, false_iff]
    omega
  | succ turns ih =>
    rw [findEntry]
    by_cases hmatch : nameMatches img fname start 32 0 = true
    · rw [if_pos hmatch]
      constructor
      · intro h
        rw [← Option.some.inj h]
        exact ⟨le_refl _, by omega, hmatch, fun j hj hlt => by omega⟩
      · rintro ⟨hle, -, -, hfirst⟩
        by_contra hne
        have hlt : start < index := by
          rcases Nat.lt_or_eq_of_le hle with hlt | heq
          · exact hlt
          · exact absurd (congrArg some heq) hne
        rw [hfirst start (le_refl _) hlt] at hmatch
        cases hmatch
    · rw [if_neg hmatch, ih]
      constructor
      · rintro ⟨hle, hlt, hfound, hfirst⟩
        refine ⟨by omega, by omega, hfound, fun j hj hlt' => ?_⟩
        by_cases heq : j = start
        · rw [heq]
          simpa using hmatch
        · exact hfirst j (by omega) hlt'
      · rintro ⟨hle, hlt, hfound, hfirst⟩
        have hne : index ≠ start := by
          intro heq
          rw [heq] at hfound
          exact hmatch hfound
        exact ⟨by omega, by omega, hfound, fun j hj hlt' => hfirst j (by omega) hlt'⟩

/-- **What a name is resolved to**: the first of the 63 entries that has it, if no byte of it is 128 or
more. -/
theorem resolved_eq_some_iff {img : Image} {fname : CStr} {index : Nat} :
    resolved img fname = some index ↔
      index < 63 ∧ fname.text = img.entryName index ∧ Ascii fname.text ∧
        ∀ j : Nat, j < index → fname.text ≠ img.entryName j := by
  have hlen : fname.strlen = fname.text.length := rfl
  unfold resolved
  constructor
  · intro h
    split at h
    · cases h
    · obtain ⟨-, hlt, hmatch, hfirst⟩ := findEntry_eq_some_iff.mp h
      obtain ⟨hname, hascii⟩ := (nameMatches_iff img fname index).mp hmatch
      refine ⟨by omega, hname, hascii, fun j hj heq => ?_⟩
      have hj' := hfirst j (Nat.zero_le j) hj
      rw [(nameMatches_iff img fname j).mpr ⟨heq, hascii⟩] at hj'
      cases hj'
  · rintro ⟨hlt, hname, hascii, hfirst⟩
    have hle := entryName_length_le img index
    rw [if_neg (by rw [hlen, hname]; omega)]
    refine findEntry_eq_some_iff.mpr ⟨Nat.zero_le index, by omega,
      (nameMatches_iff img fname index).mpr ⟨hname, hascii⟩, fun j _ hj => ?_⟩
    cases hmatch : nameMatches img fname j 32 0 with
    | false => rfl
    | true => exact absurd ((nameMatches_iff img fname j).mp hmatch).1 (hfirst j hj)

/-- The contents of an entry. -/
def Image.dentry (img : Image) (index : Int) : Dentry :=
  ⟨img.filename index, img.filetype index, img.inodeNum index⟩

/-- `read_dentry_by_name` returns the entry that the name is resolved to. -/
theorem readDentryByName_resolved (img : Image) (fname : CStr) :
    readDentryByName img (some fname) =
      (resolved img fname).map fun index : Nat => img.dentry index := by
  unfold readDentryByName resolved
  dsimp only
  split
  · rfl
  · cases hfind : findEntry img fname 63 0 with
    | none => rfl
    | some index =>
      have hlt := findEntry_lt hfind
      have hu : u32 (index : Int) = index := u32_of_fits (by omega) (by omega)
      dsimp only
      rw [readDentryByIndex, hu, if_neg (by omega)]
      rfl

/-- `get_filetype` returns its type; it refuses the empty name. -/
theorem getFiletype_resolved (img : Image) (fname : CStr) :
    getFiletype img (some fname) =
      if fname.text = [] then -1
      else ((resolved img fname).map fun index : Nat => img.filetype index).getD (-1) := by
  have hlen : fname.strlen = fname.text.length := rfl
  have hempty : fname.text = [] ↔ fname.strlen = 0 := by rw [hlen, List.length_eq_zero_iff]
  unfold getFiletype resolved
  dsimp only
  generalize findEntry img fname 63 0 = found
  by_cases hzero : fname.strlen = 0
  · rw [if_pos (hempty.mpr hzero), if_pos (.inr hzero)]
  · rw [if_neg (mt hempty.mp hzero)]
    by_cases hlong : fname.strlen > 32
    · rw [if_pos (.inl hlong), if_pos hlong]
      rfl
    · rw [if_neg (by tauto), if_neg hlong]
      cases found with
      | none => rfl
      | some index => rw [Option.map_some, Option.getD_some]

/-- `read_dentry_by_name(fname, dentry)`: the return value and what `*dentry` holds afterwards. Nothing
is stored before the call has succeeded. -/
def lookupInto (img : Image) (fname : Option CStr) (dentry : Dentry) : Int × Dentry :=
  match readDentryByName img fname with
  | none => (-1, dentry)
  | some found => (0, found)

/-- The first live entry that has the name. -/
def liveEntry (img : Image) (fname : CStr) : Option Nat :=
  (List.range img.dirCount.toNat).find? fun index => fname.text = img.entryName index

/-- The lookup finds the first live entry that has the name, and nothing else. -/
def LookupExact (img : Image) (fname : CStr) (dentry : Dentry) : Prop :=
  lookupInto img (some fname) dentry =
    match liveEntry img fname with
    | some index => (0, img.dentry index)
    | none => (-1, dentry)

/-- No byte of a live name is 128 or more, and a name that is no live one is that of no unused entry
either, unless it has such a byte. -/
def LookupSound (img : Image) (fname : CStr) : Prop :=
  if ∃ index : Nat, index < img.dirCount.toNat ∧ fname.text = img.entryName index then
    Ascii fname.text
  else
    Ascii fname.text → ∀ index : Nat, index < 63 → fname.text ≠ img.entryName index

instance (img : Image) (fname : CStr) : Decidable (LookupSound img fname) :=
  inferInstanceAs (Decidable (ite _ _ _))

theorem liveEntry_eq_some_iff {img : Image} {fname : CStr} {index : Nat} :
    liveEntry img fname = some index ↔
      index < img.dirCount.toNat ∧ fname.text = img.entryName index ∧
        ∀ j : Nat, j < index → fname.text ≠ img.entryName j := by
  unfold liveEntry
  rw [List.find?_range_eq_some]
  simp only [decide_eq_true_eq, List.mem_range, Bool.not_eq_true', decide_eq_false_iff_not]
  constructor
  · rintro ⟨hname, hlt, hfirst⟩
    exact ⟨hlt, hname, hfirst⟩
  · rintro ⟨hlt, hname, hfirst⟩
    exact ⟨hname, hlt, hfirst⟩

theorem liveEntry_eq_none_iff {img : Image} {fname : CStr} :
    liveEntry img fname = none ↔
      ∀ index : Nat, index < img.dirCount.toNat → fname.text ≠ img.entryName index := by
  unfold liveEntry
  simp

theorem lookupInto_resolved (img : Image) (fname : CStr) (dentry : Dentry) :
    lookupInto img (some fname) dentry =
      match resolved img fname with
      | some index => (0, img.dentry index)
      | none => (-1, dentry) := by
  unfold lookupInto
  rw [readDentryByName_resolved]
  cases resolved img fname <;> rfl

/-- **Lookup by name**: for every image of at most 63 entries and every name, the lookup finds the
first live entry with that name, and fails if there is none, exactly under these two conditions. -/
theorem lookup_exact_iff (img : Image) (hcount : img.dirCount ≤ 63) (fname : CStr) (dentry : Dentry) :
    LookupExact img fname dentry ↔ LookupSound img fname := by
  unfold LookupExact LookupSound
  rw [lookupInto_resolved]
  cases hlive : liveEntry img fname with
  | some index =>
    obtain ⟨hlt, hname, hfirst⟩ := liveEntry_eq_some_iff.mp hlive
    rw [if_pos ⟨index, hlt, hname⟩]
    constructor
    · intro hfound
      cases hres : resolved img fname with
      | none =>
        rw [hres] at hfound
        simp at hfound
      | some found => exact (resolved_eq_some_iff.mp hres).2.2.1
    · intro hascii
      -- the first live entry is the first of all entries
      have hres : resolved img fname = some index :=
        resolved_eq_some_iff.mpr ⟨by omega, hname, hascii, hfirst⟩
      rw [hres]
  | none =>
    have hnone := liveEntry_eq_none_iff.mp hlive
    rw [if_neg (fun ⟨index, hlt, hname⟩ => hnone index hlt hname)]
    constructor
    · intro hrefused hascii index hlt hname
      -- the first entry that has the name would be found
      have hex : ∃ j : Nat, fname.text = img.entryName j := ⟨index, hname⟩
      have hle : Nat.find hex ≤ index := Nat.find_min' hex hname
      have hres : resolved img fname = some (Nat.find hex) :=
        resolved_eq_some_iff.mpr
          ⟨by omega, Nat.find_spec hex, hascii, fun j hj => Nat.find_min hex hj⟩
      rw [hres] at hrefused
      simp at hrefused
    · intro hunused
      -- what is found otherwise has bytes below 128 only, and is no live entry
      cases hres : resolved img fname with
      | none => rfl
      | some found =>
        obtain ⟨hlt, hname, hascii, -⟩ := resolved_eq_some_iff.mp hres
        exact absurd hname (hunused hascii found hlt)

/-- The file `b`, under its name and under one that only begins with it. -/
theorem lookup_exact_iff_sample :
    LookupExact sampleImage [98] (sampleImage.dentry 0) ∧
      LookupExact sampleImage [98, 98] (sampleImage.dentry 0) :=
  ⟨(lookup_exact_iff sampleImage (by decide +kernel) [98] _).mpr (by decide +kernel),
    (lookup_exact_iff sampleImage (by decide +kernel) [98, 98] _).mpr (by decide +kernel)⟩

/-- The empty name is found in the first unused entry. -/
theorem empty_name_found :
    sampleImage.dirCount = 4 ∧ liveEntry sampleImage [] = none ∧
      (lookupInto sampleImage (some []) (sampleImage.dentry 0)).1 = 0 ∧
      ¬ LookupExact sampleImage [] (sampleImage.dentry 0) := by
  refine ⟨by decide +kernel, by decide +kernel, by decide +kernel, ?_⟩
  intro hexact
  have hret := congrArg Prod.fst hexact
  revert hret
  decide +kernel

/-! ## The listing -/

/-- `strlen` of an entry, cut at 32. -/
theorem nameLen_eq (img : Image) (index : Int) (turns k : Nat) :
    nameLen img index turns k = (nameFrom img index k turns).length := by
  induction turns generalizing k with
  | zero => rfl
  | succ turns ih =>
    rw [nameLen, nameFrom_succ, ih]
    split <;> rfl

/-- What a read of the directory delivers at a position, or of the entry behind the last one. -/
def dirRecord (img : Image) (pos nbytes : Int) : ReadResult :=
  let len : Int := min (nameLen img pos 32 0 : Int) (u32 nbytes)
  ⟨if pos < img.dirCount then len else 0,
    (List.range len.toNat).map fun k => img.filename pos (k : Nat)⟩

/-- A read of an open directory. -/
theorem dirRead_open (img : Image) {fd : Int} (h0 : 0 ≤ fd) (h8 : fd < 8) (nbytes : Int) {s : FsState}
    (hopen : (s.fdt s.currPcb fd).flags ≠ 0) :
    ((dirRead img fd nbytes).run accessSem s).1 = dirRecord img (s.fdt s.currPcb fd).filePos nbytes := by
  unfold dirRead dirRecord
  rw [run_currFd]
  dsimp only
  rw [if_neg (by omega), run_bitmapOpen, decide_eq_false hopen, if_neg Bool.false_ne_true, run_currFd]
  generalize nameLen img (s.fdt s.currPcb fd).filePos 32 0 = nameLen
  generalize img.dirCount = dirCount
  have hlen : (if (nameLen : Int) > u32 nbytes then u32 nbytes else nameLen) =
      min (nameLen : Int) (u32 nbytes) := by
    split <;> omega
  rw [hlen]
  by_cases hpos : (s.fdt s.currPcb fd).filePos < dirCount
  · rw [if_pos hpos, if_pos hpos, run_currPcb, run_fdOf, run_setFilePos]
    rfl
  · rw [if_neg hpos, if_neg hpos]
    rfl

/-- **What `dir_read` delivers of an entry**: the name, as far as it was asked for. -/
theorem dirRecord_take (img : Image) {pos nbytes : Int} (hpos : pos < img.dirCount) (h0 : 0 ≤ nbytes)
    (hn : nbytes < 4294967296) :
    dirRecord img pos nbytes =
      ⟨min ((img.entryName pos).length : Int) nbytes, (img.entryName pos).take nbytes.toNat⟩ := by
  have hlen : nameLen img pos 32 0 = (img.entryName pos).length := by
    rw [nameLen_eq]
    unfold nameFrom Image.entryName
    rw [List.range_eq_range']
  have hle := entryName_length_le img pos
  have hmin : (min ((img.entryName pos).length : Int) nbytes).toNat =
      min (img.entryName pos).length nbytes.toNat := by omega
  -- the name is the beginning of the 32 bytes
  have hprefix : img.entryName pos <+: (List.range 32).map fun j => img.filename pos (j : Nat) :=
    List.takeWhile_prefix _
  have hbytes : (List.range (min (img.entryName pos).length nbytes.toNat)).map
      (fun j => img.filename pos (j : Nat)) = (img.entryName pos).take nbytes.toNat := by
    conv_rhs => rw [List.prefix_iff_eq_take.mp hprefix]
    rw [List.take_take, ← List.map_take, List.take_range]
    congr 2
    omega
  unfold dirRecord
  rw [hlen, u32_of_fits h0 hn]
  dsimp only
  rw [if_pos hpos, hmin, hbytes]

/-- A request for 32 bytes gets the whole name. -/
theorem dirRecord_entry (img : Image) (k : Int) (hk : k < img.dirCount) :
    dirRecord img k 32 = ⟨(img.entryName k).length, img.entryName k⟩ := by
  have hle := entryName_length_le img k
  have hmin : min ((img.entryName k).length : Int) 32 = (img.entryName k).length := by omega
  rw [dirRecord_take img hk (by omega) (by omega), hmin, List.take_of_length_le (by omega)]

/-- The live entries have names, and no two the same. -/
structure Image.Listing (img : Image) : Prop where
  count : img.dirCount ≤ 63
  nonempty : ∀ k : Nat, (k : Int) < img.dirCount → img.entryName k ≠ []
  distinct : ∀ i j : Nat, (i : Int) < img.dirCount → (j : Int) < img.dirCount →
    img.entryName i = img.entryName j → i = j

instance (img : Image) : Decidable img.Listing :=
  decidable_of_iff
    (img.dirCount ≤ 63 ∧
      (∀ k : Nat, k < img.dirCount.toNat → img.entryName k ≠ []) ∧
      ∀ i : Nat, i < img.dirCount.toNat → ∀ j : Nat, j < img.dirCount.toNat →
        img.entryName i = img.entryName j → i = j)
    ⟨fun ⟨hcount, hnonempty, hdistinct⟩ =>
      ⟨hcount, fun k hk => hnonempty k (by omega),
        fun i j hi hj => hdistinct i (by omega) j (by omega)⟩,
    fun h => ⟨h.count, fun k hk => h.nonempty k (by omega),
      fun i hi j hj => h.distinct i j (by omega) (by omega)⟩⟩

/-- What a read of the directory has delivered is resolved to entry `k`; nothing longer is, and nothing
shorter that is no name itself. -/
def RoundTrip (img : Image) (k : Nat) (res : ReadResult) : Prop :=
  res.ret = res.buf.length ∧
  readDentryByName img (some res.buf) = some (img.dentry k) ∧
  getFiletype img (some res.buf) = img.filetype k ∧
  (∀ longer : CStr, longer.text.take 32 = res.buf → 32 < longer.text.length →
    readDentryByName img (some longer) = none ∧ getFiletype img (some longer) = -1) ∧
  ∀ shorter : CStr, shorter.text <+: res.buf → shorter.text ≠ res.buf →
    (∀ j : Nat, (j : Int) < img.dirCount → img.entryName j ≠ shorter.text) →
    resolved img shorter ≠ some k

/-- A live name in bytes below 128 is resolved to its entry. -/
theorem resolved_entryName {img : Image} (hlist : img.Listing) {k : Nat} (hk : (k : Int) < img.dirCount)
    (hascii : Ascii (img.entryName k)) : resolved img (img.entryName k) = some k := by
  have hcount := hlist.count
  have htext : CStr.text (img.entryName k) = img.entryName k :=
    CStr.text_of_nonzero (entryName_nonzero img k)
  refine resolved_eq_some_iff.mpr ⟨by omega, htext, by rw [htext]; exact hascii, fun j hj => ?_⟩
  rw [htext]
  intro heq
  have := hlist.distinct k j hk (by omega) heq
  omega

theorem resolved_longer {img : Image} {name : CStr} (hlong : 32 < name.text.length) :
    resolved img name = none :=
  if_pos hlong

/-- **Listing and lookup**: for every image of at most 63 live entries with distinct names, what an
open directory at position `k` delivers of a 32-byte request is found again by both lookups exactly
when every byte of it is below 128. -/
theorem listing_resolves_iff (img : Image) (hlist : img.Listing) (k : Nat)
    (hk : (k : Int) < img.dirCount) (s : FsState) (fd : Int) (h0 : 0 ≤ fd) (h8 : fd < 8)
    (hopen : (s.fdt s.currPcb fd).flags ≠ 0) (hpos : (s.fdt s.currPcb fd).filePos = k) :
    RoundTrip img k ((dirRead img fd 32).run accessSem s).1 ↔ Ascii (img.entryName k) := by
  have htext : CStr.text (img.entryName k) = img.entryName k :=
    CStr.text_of_nonzero (entryName_nonzero img k)
  rw [dirRead_open img h0 h8 32 hopen, hpos, dirRecord_entry img k hk]
  constructor
  · rintro ⟨-, hfound, -⟩
    -- whatever the name is resolved to has bytes below 128 only
    rw [readDentryByName_resolved] at hfound
    cases hres : resolved img (img.entryName k) with
    | none =>
      rw [hres] at hfound
      cases hfound
    | some index =>
      have hascii := (resolved_eq_some_iff.mp hres).2.2.1
      rw [htext] at hascii
      exact hascii
  · intro hascii
    have hres := resolved_entryName hlist hk hascii
    refine ⟨rfl, ?_, ?_, ?_, ?_⟩
    · rw [readDentryByName_resolved, hres]
      rfl
    · rw [getFiletype_resolved, hres, htext, if_neg (hlist.nonempty k hk), Option.map_some,
        Option.getD_some]
    · intro longer _ hlong
      have hnone : resolved img longer = none := resolved_longer hlong
      rw [readDentryByName_resolved, getFiletype_resolved, hnone]
      refine ⟨rfl, ?_⟩
      split <;> rfl
    · intro shorter _ hne _ hshort
      exact hne (resolved_eq_some_iff.mp hshort).2.1

/-- The directory, open at position 1, where the file `a` stands. -/
theorem listing_resolves_iff_sample :
    let s : FsState := ⟨0, 0, ⟨fun _ => 0, 0, 0⟩, fun _ _ => ⟨.dir, 0, 1, 1⟩⟩
    RoundTrip sampleImage 1 ((dirRead sampleImage 2 32).run accessSem s).1 :=
  (listing_resolves_iff sampleImage (by decide +kernel) 1 (by decide +kernel) _ 2 (by decide) (by decide)
    (by decide) rfl).mpr (by decide +kernel)

/-- The same image with the file called `é`, in one byte. -/
def latinImage : Image := fun a => if a = 128 then 233 else sampleImage a

/-- The directory lists the name, and neither lookup finds it. -/
theorem listing_not_resolved :
    let s : FsState := ⟨0, 0, ⟨fun _ => 0, 0, 0⟩, fun _ _ => ⟨.dir, 0, 1, 1⟩⟩
    latinImage.Listing ∧ ((dirRead latinImage 2 32).run accessSem s).1 = ⟨1, [233]⟩ ∧
      (readDentryByName latinImage (some [233])).isNone ∧ getFiletype latinImage (some [233]) = -1 ∧
      ¬ RoundTrip latinImage 1 ((dirRead latinImage 2 32).run accessSem s).1 := by
  refine ⟨by decide +kernel, by decide +kernel, by decide +kernel, by decide +kernel, ?_⟩
  rintro ⟨-, -, htype, -⟩
  revert htype
  decide +kernel

end SrirachOS
