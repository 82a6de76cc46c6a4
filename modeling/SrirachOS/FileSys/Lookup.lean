import SrirachOS.FileSys.Image
import Mathlib.Data.List.Basic

/-!
# Looking Up Directory Entries

`read_dentry_by_name`, `read_dentry_by_index`, `get_filetype` and `fs_search` (`filesys.c`).

Names in directory entries fill up to 32 bytes and have no terminator when they fill all of
them. The lookups compare `uint8_t` characters of the request with `int8_t` characters of
the entry; both are promoted to `int`, so a request byte from 128 on never matches.
-/

namespace SrirachOS

open Foundation

/-- A C string, less its terminator: no byte of it is zero. -/
abbrev CStr := List UInt8

namespace CStr

/-- `s[k]`; the terminator follows the last character. -/
def char (s : CStr) (k : Nat) : UInt8 := s.getD k 0

/-- `strlen(s)`: the characters before the first zero. -/
def strlen (s : CStr) : Nat := (s.takeWhile (· ≠ 0)).length

end CStr

/-! ## Lookup by name -/

/-- `while(char_idx < FILE_TYPE_OFFSET)`: whether the loop ends with `found = 1`, with the
number of turns left. -/
def nameMatches (img : Image) (fname : CStr) (index : Nat) : Nat → Nat → Bool
  | 0, _ => false
  | turns + 1, charIdx =>
    if ((fname.char charIdx).toNat : Int) ≠ i8 (img.filename index charIdx) then false
    else if fname.char charIdx = 0 ∨ (charIdx = 31 ∧ fname.char (charIdx + 1) = 0) then true
    else nameMatches img fname index turns (charIdx + 1)

/-- `while(index < BOOT_NUM_DIRS)`: the first entry that matches, with the number of turns
left. All 63 entries are tried, whatever `dir_count` is. -/
def findEntry (img : Image) (fname : CStr) : Nat → Nat → Option Nat
  | 0, _ => none
  | turns + 1, index =>
    if nameMatches img fname index 32 0 then some index
    else findEntry img fname turns (index + 1)

/-- `read_dentry_by_index(index, dentry)`: what is stored at `*dentry`, or `none` for -1.
The index is unsigned, and 63 is let through. -/
def readDentryByIndex (img : Image) (index : Int) : Option Dentry :=
  if u32 index > 63 then none
  else some
    { filename := img.filename index
      filetype := img.filetype index
      inodeNum := img.inodeNum index }

/-- `read_dentry_by_name(fname, dentry)`: what is stored at `*dentry`, or `none` for -1.
`none` as a name is the null pointer. -/
def readDentryByName (img : Image) : Option CStr → Option Dentry
  | none => none
  | some fname =>
    if fname.strlen > 32 then none
    else
      match findEntry img fname 63 0 with
      | none => none
      | some index => readDentryByIndex img index

/-- `get_filetype(fname)`. -/
def getFiletype (img : Image) : Option CStr → Int
  | none => -1
  | some fname =>
    if fname.strlen > 32 ∨ fname.strlen = 0 then -1
    else
      match findEntry img fname 63 0 with
      | none => -1
      | some index => img.filetype index

theorem findEntry_lt {img : Image} {fname : CStr} {turns start index : Nat}
    (h : findEntry img fname turns start = some index) : index < start + turns := by
  induction turns generalizing start with
  | zero => simp [findEntry] at h
  | succ turns ih =>
    rw [findEntry] at h
    split at h
    · simp only [Option.some.injEq] at h
      omega
    · have := ih h
      omega

/-- A name that has a file type has an entry of that type, and the lookup by name returns
that entry. -/
theorem readDentryByName_of_filetype {img : Image} {fname : CStr}
    (h : getFiletype img (some fname) ≠ -1) :
    ∃ index : Nat, index < 63 ∧ findEntry img fname 63 0 = some index ∧
      getFiletype img (some fname) = img.filetype index ∧
      readDentryByName img (some fname) =
        some ⟨img.filename index, img.filetype index, img.inodeNum index⟩ := by
  unfold getFiletype at h ⊢
  dsimp only at h ⊢
  split at h
  · exact absurd rfl h
  rename_i hlen
  push Not at hlen
  split at h
  · exact absurd rfl h
  rename_i index hindex
  have hlt : index < 63 := by simpa using findEntry_lt hindex
  refine ⟨index, hlt, hindex, by rw [if_neg (by omega)], ?_⟩
  have hu : u32 (index : Int) = index := u32_of_fits (by omega) (by omega)
  unfold readDentryByName readDentryByIndex
  dsimp only
  rw [if_neg (by omega), hindex]
  dsimp only
  rw [hu, if_neg (by omega)]

/-! ## Completion -/

/-- What `fs_search` leaves behind: the buffer, the new index and the characters echoed. -/
structure SearchResult where
  buf : Nat → UInt8
  idx : Nat
  echo : List UInt8

/-- `while(start_idx > 0)`: the start of the word that ends before `start_idx`. -/
def wordStart (buf : Nat → UInt8) : Nat → Nat
  | 0 => 0
  | startIdx + 1 => if buf startIdx = 32 then startIdx + 1 else wordStart buf startIdx

/-- `for(char_idx=0;char_idx<MAX_FILE_LEN;char_idx++)`: the value of `char_idx` when the loop
sets `matched`, with the number of turns left. -/
def prefixMatch (compare buf : Nat → UInt8) (startIdx idx : Nat) : Nat → Nat → Option Nat
  | 0, _ => none
  | turns + 1, charIdx =>
    if startIdx + charIdx = idx ∧ compare charIdx ≠ 0 then some charIdx
    else if compare charIdx ≠ buf (startIdx + charIdx) then none
    else prefixMatch compare buf startIdx idx turns (charIdx + 1)

/-- The copy of the rest of a name into the buffer, with the number of turns left until
`char_idx` is `MAX_FILE_LEN`. -/
def appendName (compare : Nat → UInt8) : Nat → Nat → SearchResult → SearchResult
  | 0, _, st => st
  | turns + 1, charIdx, st =>
    if compare charIdx ≠ 0 ∧ st.idx ≤ 126 then
      appendName compare turns (charIdx + 1)
        { buf := Function.update st.buf st.idx (compare charIdx)
          idx := st.idx + 1
          echo := st.echo ++ [compare charIdx] }
    else st

/-- `for(i=0;i<file_count;i++)`, with the number of turns left. -/
def searchEntries (img : Image) (buf : Nat → UInt8) (startIdx idx : Nat) :
    Nat → Nat → SearchResult
  | 0, _ => ⟨buf, idx, []⟩
  | turns + 1, i =>
    let compare := fun k : Nat => img.filename i k
    match prefixMatch compare buf startIdx idx 32 0 with
    | some charIdx => appendName compare (32 - charIdx) charIdx ⟨buf, idx, []⟩
    | none => searchEntries img buf startIdx idx turns (i + 1)

/-- `fs_search(buf, idx)`. The scan for the start of the word finds one exactly when there is
a character to look at. -/
def fsSearch (img : Image) (buf : Nat → UInt8) (idx : Nat) : SearchResult :=
  if idx > 0 ∧ buf (idx - 1) = 32 then ⟨buf, idx, []⟩
  else if idx > 0 then searchEntries img buf (wordStart buf idx) idx img.dirCount.toNat 0
  else ⟨buf, idx, []⟩

end SrirachOS
