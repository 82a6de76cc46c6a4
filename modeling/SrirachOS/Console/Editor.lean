import SrirachOS.Console.Keyboard

/-!
# The Line Editor

What typing on a terminal is meant to do, in its own terms: a keyboard with its modifier keys, which
knows the displayed terminal, turns scancodes into editing commands, and each terminal has an editor
of its own that carries them out.

- `edits`: the command that a scancode is, and the terminal it is for,
- `Editor.step`: the editor,
- `fsSearch_appends`: `fs_search` appends the completion that the editor appends.
-/

namespace SrirachOS

open Foundation

/-- A fact about all bytes is checked byte by byte. -/
theorem forall_byte {P : UInt8 → Prop} (h : ∀ n, n < 256 → P (UInt8.ofNat n)) (c : UInt8) : P c := by
  have hc := h c.toNat c.toNat_lt
  rwa [UInt8.ofNat_toNat] at hc

/-! ## The keyboard -/

/-- The keys that change the meaning of others, and the displayed terminal. -/
structure Modifiers where
  left : Bool
  right : Bool
  alt : Bool
  caps : Bool
  terminal : Int

/-- No key is held. -/
def Modifiers.start : Modifiers := ⟨false, false, false, false, 0⟩

/-- Shift or CapsLock, but not both. -/
def Modifiers.shifted (m : Modifiers) : Bool := (m.left || m.right) != m.caps

/-- Alt and a function key: the terminal to display. -/
def Modifiers.switches (m : Modifiers) (c : UInt8) : Bool := m.alt && 0x3B ≤ c && c < 0x3E

/-- A key is pressed or released. -/
def Modifiers.step (m : Modifiers) (c : UInt8) : Modifiers where
  left := if c = 0x2A then true else if c = 0xAA then false else m.left
  right := if c = 0x36 then true else if c = 0xB6 then false else m.right
  alt := if c = 0x38 then true else if c = 0xB8 then false else m.alt
  caps := if c = 0x3A then !m.caps else m.caps
  terminal := if m.switches c then (c.toNat - 0x3B : Nat) else m.terminal

/-- An editing command. -/
inductive Edit where
  | char (c : UInt8)
  | erase
  | complete
  | enter
  deriving DecidableEq

/-- What is written on a key. -/
def keyCap (shifted : Bool) (c : UInt8) : UInt8 :=
  scancode.getD (if shifted then c + 86 else c).toNat 0

/-- The command that a scancode is, and the terminal that it is for. -/
def edits (m : Modifiers) (c : UInt8) : Option (Int × Edit) :=
  if 0x55 < c ∨ c = 0x3A ∨ m.switches c ∨ c = 0x4B ∨ c = 0x4D ∨ c = 0x48 ∨ c = 0x50 then none
  else if c = 0x0E then some (m.terminal, .erase)
  else if c = 0x0F ∧ !m.shifted then some (m.terminal, .complete)
  else
    let cap := keyCap m.shifted c
    if cap = 0 then none
    else some (m.terminal, if cap = 10 then .enter else .char cap)

/-! ## The editor -/

/-- The line that is being typed, and the last one completed. -/
structure Editor where
  text : List UInt8
  line : Option (List UInt8)

/-- Nothing has been typed. -/
def Editor.start : Editor := ⟨[], none⟩

/-- The characters after the last space. -/
def lastWord (text : List UInt8) : List UInt8 := (text.reverse.takeWhile (· ≠ 32)).reverse

/-- The name of entry `i` begins with `w` and goes on. -/
def NameGoesOn (img : Image) (w : List UInt8) (i : Nat) : Prop :=
  w.length < 32 ∧ (∀ (j : Nat) (h : j < w.length), img.filename i j = w[j]) ∧
    img.filename i w.length ≠ 0

instance (img : Image) (w : List UInt8) (i : Nat) : Decidable (NameGoesOn img w i) :=
  inferInstanceAs (Decidable (_ ∧ _))

/-- The characters of a name from the `n`-th on. -/
def restOfName (img : Image) (i n : Nat) : List UInt8 :=
  ((List.range (32 - n)).map fun k => img.filename i (n + k : Nat)).takeWhile (· ≠ 0)

/-- The rest of the first name that the last word is the beginning of. -/
def completion (img : Image) (text : List UInt8) : List UInt8 :=
  if lastWord text = [] then []
  else
    match (List.range img.dirCount.toNat).find? (NameGoesOn img (lastWord text)) with
    | some i => restOfName img i (lastWord text).length
    | none => []

/-- A command is carried out. -/
def Editor.step (img : Image) (ed : Editor) : Edit → Editor
  | .char c => if ed.text.length < 127 then { ed with text := ed.text ++ [c] } else ed
  | .erase => { ed with text := ed.text.dropLast }
  | .complete => { ed with text := (ed.text ++ completion img ed.text).take 127 }
  | .enter => ⟨[], some (ed.text.takeWhile (· ≠ 10) ++ [10])⟩

/-! ## Completion in a buffer -/

/-- The first `n` characters of a buffer. -/
def bufText (buf : Nat → UInt8) (n : Nat) : List UInt8 := (List.range n).map buf

@[simp] theorem length_bufText (buf : Nat → UInt8) (n : Nat) : (bufText buf n).length = n := by
  simp [bufText]

@[simp] theorem getElem_bufText (buf : Nat → UInt8) {n i : Nat} (h : i < (bufText buf n).length) :
    (bufText buf n)[i] = buf i := by
  simp [bufText]

theorem bufText_succ (buf : Nat → UInt8) (n : Nat) :
    bufText buf (n + 1) = bufText buf n ++ [buf n] := by
  simp [bufText, List.range_succ]

/-- What lies behind the text does not matter. -/
theorem bufText_congr {buf buf' : Nat → UInt8} {n : Nat} (h : ∀ i, i < n → buf' i = buf i) :
    bufText buf' n = bufText buf n :=
  List.map_congr_left fun i hi => h i (List.mem_range.mp hi)

theorem mem_bufText {buf : Nat → UInt8} {n : Nat} {c : UInt8} :
    c ∈ bufText buf n ↔ ∃ i, i < n ∧ buf i = c := by
  simp [bufText]

/-- The word before the index begins where the scan finds its start. -/
theorem wordStart_lastWord (buf : Nat → UInt8) (n : Nat) :
    wordStart buf n ≤ n ∧
      lastWord (bufText buf n) = bufText (fun k => buf (wordStart buf n + k)) (n - wordStart buf n) := by
  induction n with
  | zero => exact ⟨le_refl 0, rfl⟩
  | succ n ih =>
    obtain ⟨hle, hword⟩ := ih
    unfold lastWord at hword ⊢
    rw [bufText_succ, List.reverse_append, List.reverse_singleton, List.singleton_append,
      List.takeWhile_cons, wordStart]
    by_cases hspace : buf n = 32
    · have hnone : (decide (buf n ≠ 32)) = false := by simp [hspace]
      rw [if_pos hspace, hnone, Nat.sub_self]
      exact ⟨le_refl _, rfl⟩
    · have hsome : (decide (buf n ≠ 32)) = true := by simp [hspace]
      rw [if_neg hspace, hsome, if_pos rfl, List.reverse_cons, hword, Nat.succ_sub hle, bufText_succ,
        Nat.add_sub_cancel' hle]
      exact ⟨by omega, rfl⟩

/-- Behind the end of the word nothing matches. -/
theorem prefixMatch_behind (compare buf : Nat → UInt8) {startIdx idx charIdx : Nat}
    (h : idx < startIdx + charIdx) (turns : Nat) :
    prefixMatch compare buf startIdx idx turns charIdx = none := by
  induction turns generalizing charIdx with
  | zero => rfl
  | succ turns ih =>
    rw [prefixMatch, if_neg (by omega)]
    split
    · rfl
    · exact ih (by omega)

/-- A name matches when it begins with the word and goes on. -/
theorem prefixMatch_eq (compare buf : Nat → UInt8) {startIdx idx charIdx turns : Nat}
    (hle : startIdx + charIdx ≤ idx) (hturns : charIdx + turns = 32) :
    prefixMatch compare buf startIdx idx turns charIdx =
      if idx - startIdx < 32 ∧ (∀ j, charIdx ≤ j → j < idx - startIdx →
          compare j = buf (startIdx + j)) ∧ compare (idx - startIdx) ≠ 0
      then some (idx - startIdx) else none := by
  induction turns generalizing charIdx with
  | zero =>
    rw [if_neg]
    · rfl
    · rintro ⟨hlt, -, -⟩
      omega
  | succ turns ih =>
    rw [prefixMatch]
    by_cases hend : startIdx + charIdx = idx
    · -- the word has been compared
      have hlen : idx - startIdx = charIdx := by omega
      rw [hlen]
      by_cases hmore : compare charIdx = 0
      · have hnot : ¬ (charIdx < 32 ∧ (∀ j, charIdx ≤ j → j < charIdx →
            compare j = buf (startIdx + j)) ∧ compare charIdx ≠ 0) := fun h => h.2.2 hmore
        rw [if_neg (fun h => h.2 hmore), if_neg hnot]
        split
        · rfl
        · exact prefixMatch_behind compare buf (by omega) turns
      · rw [if_pos ⟨hend, hmore⟩, if_pos ⟨by omega, fun j h1 h2 => absurd h1 (by omega), hmore⟩]
    · rw [if_neg (fun h => hend h.1)]
      -- the same character: it joins those that have to agree; another one ends the comparison
      by_cases hsame : compare charIdx = buf (startIdx + charIdx)
      · rw [if_neg (fun h => h hsame), ih (by omega) (by omega)]
        refine if_congr ?_ rfl rfl
        constructor
        · rintro ⟨hlt, hrest, hmore⟩
          refine ⟨hlt, fun j h1 h2 => ?_, hmore⟩
          rcases eq_or_ne j charIdx with rfl | hne
          · exact hsame
          · exact hrest j (by omega) h2
        · rintro ⟨hlt, hrest, hmore⟩
          exact ⟨hlt, fun j h1 h2 => hrest j (by omega) h2, hmore⟩
      · rw [if_pos hsame, if_neg]
        rintro ⟨-, hrest, -⟩
        exact hsame (hrest charIdx (le_refl _) (by omega))

/-- The loop over the rest of a name appends it, as far as there is room. -/
theorem appendName_eq (compare : Nat → UInt8) (turns charIdx : Nat) (st : SearchResult)
    (hst : st.idx ≤ 127) :
    let rest := (((List.range turns).map fun k => compare (charIdx + k)).takeWhile (· ≠ 0)).take
      (127 - st.idx)
    let result := appendName compare turns charIdx st
    result.idx = st.idx + rest.length ∧
      bufText result.buf result.idx = bufText st.buf st.idx ++ rest ∧
      result.echo = st.echo ++ rest := by
  induction turns generalizing charIdx st with
  | zero => simp [appendName]
  | succ turns ih =>
    intro rest result
    have hchars : (List.range (turns + 1)).map (fun k => compare (charIdx + k)) =
        compare charIdx :: (List.range turns).map fun k => compare (charIdx + 1 + k) := by
      rw [List.range_succ_eq_map, List.map_cons, List.map_map]
      refine congrArg _ (List.map_congr_left fun k _ => ?_)
      change compare (charIdx + (k + 1)) = _
      rw [Nat.add_assoc, Nat.add_comm 1 k]
    have hrest : rest = ((compare charIdx :: (List.range turns).map fun k =>
        compare (charIdx + 1 + k)).takeWhile (· ≠ 0)).take (127 - st.idx) := by
      rw [← hchars]
    have hresult : result = if compare charIdx ≠ 0 ∧ st.idx ≤ 126 then
        appendName compare turns (charIdx + 1)
          { buf := Function.update st.buf st.idx (compare charIdx)
            idx := st.idx + 1
            echo := st.echo ++ [compare charIdx] }
        else st := rfl
    -- the loop goes on while the name does and the buffer has room for one more
    by_cases hgo : compare charIdx ≠ 0 ∧ st.idx ≤ 126
    · obtain ⟨hnz, hroom⟩ := hgo
      rw [if_pos ⟨hnz, hroom⟩] at hresult
      have hkeep : (decide (compare charIdx ≠ 0)) = true := decide_eq_true hnz
      have hsub : 127 - st.idx = (127 - (st.idx + 1)) + 1 := by omega
      rw [List.takeWhile_cons, hkeep, if_pos rfl, hsub, List.take_succ_cons] at hrest
      obtain ⟨hidx, hbuf, hecho⟩ := ih (charIdx + 1)
        ⟨Function.update st.buf st.idx (compare charIdx), st.idx + 1, st.echo ++ [compare charIdx]⟩
        (by change st.idx + 1 ≤ 127; omega)
      have htext : bufText (Function.update st.buf st.idx (compare charIdx)) (st.idx + 1) =
          bufText st.buf st.idx ++ [compare charIdx] := by
        rw [bufText_succ, Function.update_self,
          bufText_congr fun i hi => Function.update_of_ne (by omega) ..]
      dsimp only at hidx hbuf hecho
      rw [htext] at hbuf
      rw [hresult, hrest]
      refine ⟨?_, ?_, ?_⟩
      · rw [hidx, List.length_cons]
        omega
      · rw [hbuf, List.append_assoc, List.singleton_append]
      · rw [hecho, List.append_assoc, List.singleton_append]
    · rw [if_neg hgo] at hresult
      have hnil : rest = [] := by
        rw [hrest]
        by_cases hnz : compare charIdx = 0
        · simp [hnz]
        · have hfull : 127 - st.idx = 0 := by
            have : ¬ st.idx ≤ 126 := fun h => hgo ⟨hnz, h⟩
            omega
          rw [hfull, List.take_zero]
      rw [hresult, hnil]
      simp

/-- The loop over a name finds the end of the word in it, if the name begins with the word and goes
on. -/
theorem prefixMatch_name (img : Image) (buf : Nat → UInt8) {startIdx idx : Nat}
    (hle : startIdx ≤ idx) (i : Nat) :
    prefixMatch (fun k : Nat => img.filename i k) buf startIdx idx 32 0 =
      if NameGoesOn img (bufText (fun k => buf (startIdx + k)) (idx - startIdx)) i
      then some (idx - startIdx) else none := by
  have hgoes : NameGoesOn img (bufText (fun k => buf (startIdx + k)) (idx - startIdx)) i ↔
      idx - startIdx < 32 ∧ (∀ j, 0 ≤ j → j < idx - startIdx →
        img.filename i j = buf (startIdx + j)) ∧ img.filename i (idx - startIdx : Nat) ≠ 0 := by
    simp [NameGoesOn]
  rw [prefixMatch_eq _ _ (by omega) (by omega)]
  exact if_congr hgoes.symm rfl rfl

/-- The search over the entries finds the first name that the word is the beginning of. -/
theorem searchEntries_eq (img : Image) (buf : Nat → UInt8) {startIdx idx : Nat} (hle : startIdx ≤ idx)
    (turns i : Nat) :
    searchEntries img buf startIdx idx turns i =
      match ((List.range turns).map (i + ·)).find?
          (NameGoesOn img (bufText (fun k => buf (startIdx + k)) (idx - startIdx))) with
      | some j => appendName (fun k : Nat => img.filename j k) (32 - (idx - startIdx)) (idx - startIdx)
          ⟨buf, idx, []⟩
      | none => ⟨buf, idx, []⟩ := by
  induction turns generalizing i with
  | zero => rfl
  | succ turns ih =>
    have hentries : (List.range (turns + 1)).map (i + ·) =
        i :: (List.range turns).map (i + 1 + ·) := by
      rw [List.range_succ_eq_map, List.map_cons, List.map_map]
      refine congrArg _ (List.map_congr_left fun k _ => ?_)
      change i + (k + 1) = i + 1 + k
      omega
    rw [searchEntries, prefixMatch_name img buf hle, hentries, List.find?_cons]
    -- the first entry matches, or the search goes on behind it
    by_cases hgo : NameGoesOn img (bufText (fun k => buf (startIdx + k)) (idx - startIdx)) i
    · rw [if_pos hgo, decide_eq_true hgo]
    · rw [if_neg hgo, decide_eq_false hgo]
      exact ih (i + 1)

/-- Without a word before the index nothing is searched for. -/
theorem fsSearch_of_noWord (img : Image) {buf : Nat → UInt8} {idx : Nat}
    (h : wordStart buf idx = idx) : fsSearch img buf idx = ⟨buf, idx, []⟩ := by
  unfold fsSearch
  cases idx with
  | zero =>
    rw [if_neg (by omega), if_neg (by omega)]
  | succ n =>
    have hspace : buf n = 32 := by
      by_contra hne
      rw [wordStart, if_neg hne] at h
      have := (wordStart_lastWord buf n).1
      omega
    rw [if_pos ⟨by omega, hspace⟩]

/-- With a word, the entries are searched. -/
theorem fsSearch_of_word (img : Image) {buf : Nat → UInt8} {idx : Nat}
    (h : wordStart buf idx < idx) :
    fsSearch img buf idx = searchEntries img buf (wordStart buf idx) idx img.dirCount.toNat 0 := by
  have hlast : ¬ (idx > 0 ∧ buf (idx - 1) = 32) := by
    rintro ⟨hpos, hspace⟩
    cases idx with
    | zero => omega
    | succ n =>
      have hspace' : buf n = 32 := hspace
      rw [wordStart, if_pos hspace'] at h
      omega
  unfold fsSearch
  rw [if_neg hlast, if_pos (by omega)]

/-- **`fs_search`** appends the completion of the text, as far as there is room, and echoes what it
appends. -/
theorem fsSearch_appends (img : Image) (buf : Nat → UInt8) {idx : Nat} (hidx : idx ≤ 127) :
    let more := (completion img (bufText buf idx)).take (127 - idx)
    (fsSearch img buf idx).idx = idx + more.length ∧
      bufText (fsSearch img buf idx).buf (fsSearch img buf idx).idx = bufText buf idx ++ more ∧
      (fsSearch img buf idx).echo = more := by
  obtain ⟨hle, hword⟩ := wordStart_lastWord buf idx
  have hlen : (lastWord (bufText buf idx)).length = idx - wordStart buf idx := by
    rw [hword, length_bufText]
  intro more
  -- a text that ends in a blank, or is empty, has no word to complete
  rcases Nat.lt_or_eq_of_le hle with hlt | hempty
  · have hwordne : lastWord (bufText buf idx) ≠ [] := by
      intro hnil
      rw [hnil, List.length_nil] at hlen
      omega
    have hall : ∀ n, (List.range n).map (0 + ·) = List.range n := by simp
    have hmore : more = (match (List.range img.dirCount.toNat).find?
        (NameGoesOn img (lastWord (bufText buf idx))) with
      | some i => restOfName img i (idx - wordStart buf idx)
      | none => []).take (127 - idx) := by
      rw [← hlen]
      exact congrArg (List.take (127 - idx)) (if_neg hwordne)
    rw [hmore, fsSearch_of_word img hlt, searchEntries_eq img buf hle, hall, ← hword]
    cases (List.range img.dirCount.toNat).find? (NameGoesOn img (lastWord (bufText buf idx))) with
    | none => simp
    | some i =>
      exact appendName_eq (fun k : Nat => img.filename i k) (32 - (idx - wordStart buf idx))
        (idx - wordStart buf idx) ⟨buf, idx, []⟩ hidx
  · have hnil : lastWord (bufText buf idx) = [] := by
      rw [← List.length_eq_zero_iff, hlen]
      omega
    have hmore : more = [] := by
      have hnone : completion img (bufText buf idx) = [] := if_pos hnil
      change (completion img (bufText buf idx)).take (127 - idx) = []
      rw [hnone, List.take_nil]
    rw [hmore, fsSearch_of_noWord img hempty]
    simp

theorem fsSearch_completes (img : Image) (buf : Nat → UInt8) {idx : Nat} (hidx : idx ≤ 127) :
    bufText (fsSearch img buf idx).buf (fsSearch img buf idx).idx =
        (bufText buf idx ++ completion img (bufText buf idx)).take 127 ∧
      (fsSearch img buf idx).idx ≤ 127 := by
  obtain ⟨hidx', htext, -⟩ := fsSearch_appends img buf hidx
  have hwhole : (bufText buf idx).take 127 = bufText buf idx :=
    List.take_of_length_le (by rw [length_bufText]; exact hidx)
  have hroom := List.length_take_le (127 - idx) (completion img (bufText buf idx))
  refine ⟨?_, by omega⟩
  rw [htext, List.take_append, length_bufText, hwhole]

/-! ## Lines in a buffer -/

/-- The text before the first newline, as far as the buffer goes. -/
theorem takeWhile_bufText (buf : Nat → UInt8) (n : Nat) :
    ∃ p, p ≤ n ∧ (∀ j, j < p → buf j ≠ 10) ∧ (p < n → buf p = 10) ∧
      (bufText buf n).takeWhile (· ≠ 10) = bufText buf p := by
  induction n with
  | zero => exact ⟨0, le_refl 0, fun j hj => absurd hj (by omega), fun h => absurd h (by omega), rfl⟩
  | succ n ih =>
    obtain ⟨p, hp, hbefore, hat, htext⟩ := ih
    rw [bufText_succ, List.takeWhile_append, htext, length_bufText, length_bufText]
    by_cases hpn : p = n
    · subst hpn
      rw [if_pos rfl]
      by_cases hnl : buf p = 10
      · exact ⟨p, by omega, hbefore, fun _ => hnl, by simp [hnl]⟩
      · refine ⟨p + 1, le_refl _, fun j hj => ?_, fun h => absurd h (by omega), ?_⟩
        · rcases eq_or_ne j p with rfl | hne
          · exact hnl
          · exact hbefore j (by omega)
        · rw [bufText_succ]
          simp [hnl]
    · rw [if_neg hpn]
      exact ⟨p, by omega, hbefore, fun _ => hat (by omega), rfl⟩

/-- `my_strcpy` copies up to the first newline. -/
theorem myStrcpy_apply (src : Nat → UInt8) {p turns i : Nat} (hi : i ≤ p) (hp : p < i + turns)
    (hnl : src p = 10) (hbefore : ∀ j, j < p → src j ≠ 10) (dest : Nat → UInt8) (a : Nat) :
    myStrcpy src turns i dest a = if i ≤ a ∧ a ≤ p then src a else dest a := by
  induction turns generalizing i dest with
  | zero => omega
  | succ turns ih =>
    rw [myStrcpy]
    by_cases hip : i = p
    · subst hip
      rw [if_pos hnl, Function.update_apply]
      by_cases ha : a = i
      · rw [if_pos ha, if_pos (by omega), ha, hnl]
      · rw [if_neg ha, if_neg (by omega)]
    · rw [if_neg (hbefore i (by omega)), ih (by omega) (by omega), Function.update_apply]
      by_cases ha : a = i
      · rw [if_neg (by omega), if_pos ha, if_pos (by omega), ha]
      · rw [if_neg ha]
        exact if_congr (by omega) rfl rfl

/-- **The copied line**: the text up to its first newline, and a newline. -/
theorem myStrcpy_line (src : Nat → UInt8) {n turns : Nat} (hn : n < turns) (hnl : src n = 10)
    (dest : Nat → UInt8) :
    let line := (bufText src n).takeWhile (· ≠ 10) ++ [10]
    bufText (myStrcpy src turns 0 dest) line.length = line := by
  obtain ⟨p, hp, hbefore, hat, htext⟩ := takeWhile_bufText src n
  have hend : src p = 10 := by
    rcases Nat.lt_or_eq_of_le hp with hlt | heq
    · exact hat hlt
    · rw [heq, hnl]
  dsimp only
  rw [htext, List.length_append, length_bufText, List.length_singleton, ← hend, ← bufText_succ]
  apply bufText_congr
  intro j hj
  rw [myStrcpy_apply src (Nat.zero_le p) (by omega) hend hbefore, if_pos (by omega)]

end SrirachOS
