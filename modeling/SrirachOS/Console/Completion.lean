import SrirachOS.Console.Editor
import SrirachOS.FileSys.Names

/-!
# Tab Completion

What `fs_search` appends to a line, in terms of the names of the directory: `completion` compares a
word with the 32 bytes of an entry, and here it is the beginning of a name.

- `Extends`, `FirstMatch`: the entry that a word is completed from,
- `nameGoesOn_iff`: a word without NUL goes on in an entry when it is a proper prefix of its name,
- `appendName_frame`: nothing but the entries behind the text is stored to,
- `tab_completes`: the completion of a line.
-/

namespace SrirachOS

open Foundation

/-! ## Prefixes of a text before its terminator -/

/-- `w` is the beginning of the text before the first zero, and not all of it. -/
theorem prefix_takeWhile_iff {w : List UInt8} (hw : ∀ b ∈ w, b ≠ 0) (l : List UInt8) :
    (w <+: l.takeWhile (· ≠ 0) ∧ w ≠ l.takeWhile (· ≠ 0)) ↔ w <+: l ∧ l.getD w.length 0 ≠ 0 := by
  induction w generalizing l with
  | nil =>
    cases l with
    | nil => simp
    | cons b l =>
      by_cases hb : b = 0
      · simp [hb]
      · simp [hb]
  | cons c w ih =>
    obtain ⟨hc, hw⟩ := List.forall_mem_cons.mp hw
    cases l with
    | nil => simp
    | cons b l =>
      by_cases hcb : c = b
      · subst hcb
        have hkeep : (decide (c ≠ 0)) = true := decide_eq_true hc
        rw [List.takeWhile_cons, if_pos hkeep]
        -- the first characters agree and are not zero: the rest decides
        simpa [List.cons_prefix_cons] using ih hw l
      · -- the first characters differ
        have hleft : ¬ c :: w <+: (b :: l).takeWhile (· ≠ 0) := fun h =>
          hcb (List.cons_prefix_cons.mp (h.trans (List.takeWhile_prefix _))).1
        have hright : ¬ c :: w <+: b :: l := fun h => hcb (List.cons_prefix_cons.mp h).1
        exact iff_of_false (fun h => hleft h.1) (fun h => hright h.1)

/-- What is left of the text before the first zero, behind a part of it. -/
theorem drop_takeWhile_nonzero {n : Nat} {l : List UInt8}
    (h : n ≤ (l.takeWhile (· ≠ 0)).length) :
    (l.takeWhile (· ≠ 0)).drop n = (l.drop n).takeWhile (· ≠ 0) := by
  induction n generalizing l with
  | zero => rfl
  | succ n ih =>
    cases l with
    | nil => rfl
    | cons b l =>
      by_cases hb : b = 0
      · simp [hb] at h
      · have hkeep : (decide (b ≠ 0)) = true := decide_eq_true hb
        rw [List.takeWhile_cons, if_pos hkeep, List.length_cons] at h
        rw [List.takeWhile_cons, if_pos hkeep, List.drop_succ_cons, List.drop_succ_cons]
        exact ih (by omega)

/-! ## The entry that a word is completed from -/

/-- The name of entry `i` begins with `w`, and is longer. -/
def Extends (img : Image) (w : List UInt8) (i : Nat) : Prop :=
  w <+: img.entryName i ∧ w ≠ img.entryName i

instance (img : Image) (w : List UInt8) (i : Nat) : Decidable (Extends img w i) :=
  inferInstanceAs (Decidable (_ ∧ _))

/-- Entry `i` is the first live one whose name `w` is a proper prefix of. -/
structure FirstMatch (img : Image) (w : List UInt8) (i : Nat) : Prop where
  live : (i : Int) < img.dirCount
  goesOn : Extends img w i
  first : ∀ j, j < i → ¬ Extends img w j

/-- The 32 bytes of an entry. -/
def entryBytes (img : Image) (i : Nat) : List UInt8 :=
  (List.range 32).map fun k => img.filename i (k : Nat)

theorem prefix_entryBytes_iff (img : Image) (w : List UInt8) (i : Nat) :
    w <+: entryBytes img i ↔
      w.length ≤ 32 ∧ ∀ (j : Nat) (h : j < w.length), img.filename i j = w[j] := by
  rw [List.prefix_iff_getElem]
  constructor
  · rintro ⟨hle, hget⟩
    have hlen : (entryBytes img i).length = 32 := by simp [entryBytes]
    refine ⟨hlen ▸ hle, fun j hj => ?_⟩
    rw [hget j hj]
    simp [entryBytes]
  · rintro ⟨hle, hget⟩
    refine ⟨by simpa [entryBytes] using hle, fun j hj => ?_⟩
    rw [← hget j hj]
    simp [entryBytes]

/-- **A word goes on in an entry** when it is a proper prefix of the entry's name. -/
theorem nameGoesOn_iff (img : Image) {w : List UInt8} (hw : ∀ b ∈ w, b ≠ 0) (i : Nat) :
    NameGoesOn img w i ↔ Extends img w i := by
  have hnext : w.length < 32 → (entryBytes img i).getD w.length 0 = img.filename i w.length := by
    intro hlt
    rw [List.getD_eq_getElem _ _ (by simpa [entryBytes] using hlt)]
    simp [entryBytes]
  have hend : ¬ w.length < 32 → (entryBytes img i).getD w.length 0 = 0 := fun hge =>
    List.getD_eq_default _ _ (by simpa [entryBytes] using hge)
  -- the loop compares with the 32 bytes of the entry, of which the name is the part before a zero
  refine Iff.trans ?_ (prefix_takeWhile_iff hw (entryBytes img i)).symm
  rw [prefix_entryBytes_iff]
  constructor
  · rintro ⟨hlt, hsame, hmore⟩
    exact ⟨⟨hlt.le, hsame⟩, by rwa [hnext hlt]⟩
  · rintro ⟨⟨hle, hsame⟩, hmore⟩
    have hlt : w.length < 32 := by
      by_contra hge
      exact hmore (hend hge)
    exact ⟨hlt, hsame, by rwa [← hnext hlt]⟩

/-- What the completion appends is the rest of the name. -/
theorem restOfName_eq {img : Image} {w : List UInt8} {i : Nat} (h : Extends img w i) :
    restOfName img i w.length = (img.entryName i).drop w.length := by
  have hbytes : (List.range (32 - w.length)).map (fun k => img.filename i (w.length + k : Nat)) =
      (entryBytes img i).drop w.length := by
    apply List.ext_getElem
    · simp [entryBytes]
    · intro j h1 h2
      simp [entryBytes]
  unfold restOfName
  rw [hbytes]
  exact (drop_takeWhile_nonzero h.1.length_le).symm

/-- **The completion** of a text whose last word begins a name. -/
theorem completion_of_firstMatch {img : Image} {text : List UInt8}
    (hnonul : ∀ b ∈ lastWord text, b ≠ 0) (hword : lastWord text ≠ []) {i : Nat}
    (h : FirstMatch img (lastWord text) i) :
    completion img text = (img.entryName i).drop (lastWord text).length := by
  have hfind : (List.range img.dirCount.toNat).find? (NameGoesOn img (lastWord text)) = some i := by
    -- the first entry in the search is the first match
    rw [List.find?_range_eq_some]
    have hlive := h.live
    refine ⟨decide_eq_true ((nameGoesOn_iff img hnonul i).mpr h.goesOn),
      List.mem_range.mpr (by omega), fun j hj => ?_⟩
    have hnot := h.first j hj
    rw [← nameGoesOn_iff img hnonul] at hnot
    simpa using hnot
  unfold completion
  rw [if_neg hword, hfind]
  exact restOfName_eq h.goesOn

/-- A text whose last word begins no live name is left as it is. -/
theorem completion_of_noMatch {img : Image} {text : List UInt8}
    (hnonul : ∀ b ∈ lastWord text, b ≠ 0)
    (h : ∀ i : Nat, (i : Int) < img.dirCount → ¬ Extends img (lastWord text) i) :
    completion img text = [] := by
  unfold completion
  split
  · rfl
  · have hfind : (List.range img.dirCount.toNat).find? (NameGoesOn img (lastWord text)) = none := by
      rw [List.find?_range_eq_none]
      intro i hi
      have hnot := h i (by omega)
      rw [← nameGoesOn_iff img hnonul] at hnot
      simpa using hnot
    rw [hfind]

/-! ## The buffer -/

/-- The loop over the rest of a name stores behind the text, and before the index it ends with. -/
theorem appendName_frame (compare : Nat → UInt8) (turns charIdx : Nat) (st : SearchResult) {a : Nat}
    (h : a < st.idx) : (appendName compare turns charIdx st).buf a = st.buf a := by
  induction turns generalizing charIdx st with
  | zero => rfl
  | succ turns ih =>
    rw [appendName]
    split
    · rw [ih _ _ (Nat.lt_succ_of_lt h)]
      exact Function.update_of_ne h.ne _ _
    · rfl

/-- **The text** before the index stays. -/
theorem fsSearch_frame (img : Image) (buf : Nat → UInt8) {idx a : Nat} (h : a < idx) :
    (fsSearch img buf idx).buf a = buf a := by
  obtain ⟨hle, -⟩ := wordStart_lastWord buf idx
  -- without a word nothing is searched
  rcases Nat.lt_or_eq_of_le hle with hlt | hempty
  · rw [fsSearch_of_word img hlt, searchEntries_eq img buf hle]
    split
    · exact appendName_frame _ _ _ _ h
    · rfl
  · rw [fsSearch_of_noWord img hempty]

/-- The last word of a text that does not end with a space. -/
theorem lastWord_eq_nil_iff (buf : Nat → UInt8) (idx : Nat) :
    lastWord (bufText buf idx) = [] ↔ idx = 0 ∨ buf (idx - 1) = 32 := by
  cases idx with
  | zero => exact iff_of_true rfl (.inl rfl)
  | succ n =>
    rw [bufText_succ]
    by_cases hspace : buf n = 32
    · simp [lastWord, hspace]
    · simp [lastWord, hspace]

/-- Of the live entries that a word is a proper prefix of, one is the first. -/
theorem exists_firstMatch {img : Image} {w : List UInt8}
    (h : ∃ i : Nat, (i : Int) < img.dirCount ∧ Extends img w i) : ∃ i, FirstMatch img w i := by
  classical
  obtain ⟨hlive, hgoes⟩ := Nat.find_spec h
  refine ⟨Nat.find h, hlive, hgoes, fun j hj hext => Nat.find_min h hj ⟨?_, hext⟩⟩
  omega

/-- **Tab completion**: for every image and every line without NUL, the rest of the first live name
that the last word is a proper prefix of is appended, as far as there is room up to index 127; without
such a name, and without a word, nothing is. The text before the index is left alone. -/
theorem tab_completes (img : Image) (buf : Nat → UInt8) (idx : Nat) (hidx : idx ≤ 127)
    (hnonul : ∀ j, j < idx → buf j ≠ 0) :
    let w := lastWord (bufText buf idx)
    let result := fsSearch img buf idx
    (0 < idx → buf (idx - 1) ≠ 32 → (∃ i : Nat, (i : Int) < img.dirCount ∧ Extends img w i) →
      ∃ i, FirstMatch img w i ∧
        let rest := (img.entryName i).drop w.length
        result.idx = min 127 (idx + rest.length) ∧
          bufText result.buf result.idx = bufText buf idx ++ rest.take (127 - idx)) ∧
    (idx = 0 ∨ buf (idx - 1) = 32 ∨ (¬ ∃ i : Nat, (i : Int) < img.dirCount ∧ Extends img w i) →
      result.idx = idx) ∧
    ∀ j, j < idx → result.buf j = buf j := by
  intro w result
  obtain ⟨hresult, htext, -⟩ := fsSearch_appends img buf hidx
  -- the last word is a part of the line
  have hword : ∀ b ∈ w, b ≠ 0 := by
    intro b hb
    have hmem : b ∈ bufText buf idx :=
      List.mem_reverse.mp ((List.takeWhile_sublist _).mem (List.mem_reverse.mp hb))
    obtain ⟨j, hj, rfl⟩ := mem_bufText.mp hmem
    exact hnonul j hj
  refine ⟨fun hpos hlast hsome => ?_, fun hnone => ?_, fun j hj => fsSearch_frame img buf hj⟩
  · obtain ⟨i, hi⟩ := exists_firstMatch hsome
    have hne : w ≠ [] := fun hnil =>
      ((lastWord_eq_nil_iff buf idx).mp hnil).elim hpos.ne' hlast
    rw [completion_of_firstMatch hword hne hi] at hresult htext
    refine ⟨i, hi, ?_, htext⟩
    -- what is appended ends with the name or at index 127
    rw [List.length_take] at hresult
    change result.idx = idx + min (127 - idx) ((img.entryName i).drop w.length).length at hresult
    omega
  · have hempty : completion img (bufText buf idx) = [] := by
      rcases hnone with hzero | hspace | hnot
      · exact if_pos ((lastWord_eq_nil_iff buf idx).mpr (.inl hzero))
      · exact if_pos ((lastWord_eq_nil_iff buf idx).mpr (.inr hspace))
      · exact completion_of_noMatch hword fun i hlive hext => hnot ⟨i, hlive, hext⟩
    rw [hempty, List.take_nil] at hresult
    exact hresult

/-- The line `cat sh`, with other characters behind it. -/
def catLine : Nat → UInt8 := fun i => [99, 97, 116, 32, 115, 104].getD i 120

/-- `cat sh` becomes `cat shell`. -/
theorem tab_completes_shell :
    (fsSearch sampleImage catLine 6).idx = 9 ∧
      bufText (fsSearch sampleImage catLine 6).buf 9 = [99, 97, 116, 32, 115, 104, 101, 108, 108] := by
  obtain ⟨hmatch, -, -⟩ := tab_completes sampleImage catLine 6 (by decide) (by decide +kernel)
  obtain ⟨i, hi, hidx, htext⟩ := hmatch (by decide) (by decide)
    ⟨3, by decide +kernel, by decide +kernel⟩
  have hfirst : i = 3 := by
    by_contra hne
    have hle : i < 4 := hi.live.trans_le (by decide +kernel) |> Int.ofNat_lt.mp
    have hnot : ∀ j, j < 3 → ¬ Extends sampleImage (lastWord (bufText catLine 6)) j := by
      decide +kernel
    exact hnot i (by omega) hi.goesOn
  subst hfirst
  have hnine : (fsSearch sampleImage catLine 6).idx = 9 := hidx.trans (by decide +kernel)
  rw [hnine] at htext
  exact ⟨hnine, htext.trans (by decide +kernel)⟩

end SrirachOS
