import SrirachOS.Foundation.Traced
import SrirachOS.Console.LineDiscipline
import SrirachOS.Console.LineSlot

/-!
# The Bounds of the Keyboard's Arrays

`getChar`, `keyboard_handler` and the copies of lines, with each access to `pressed_flags`,
`scancode`, `save_buf` and the line buffers recorded.

- `Touching`: the functions of the keyboard with their accesses, which compute what the plain ones do,
- `KeyOk`: the keys for which every access is inside its array,
- `key_bounds`: the accesses of a run stay inside the arrays when its keys are such keys.
-/

namespace SrirachOS

open Foundation Traced

/-! ## Accesses -/

/-- An access to entry `i` of an array of the keyboard, of terminal `t` where each has its own. -/
inductive KeyAccess where
  | pressedFlags (i : Nat)
  | scancode (i : Nat)
  | saveBuf (t : Int) (i : Nat)
  | lineBuf (t : Int) (i : Nat)
  | lastBuf (i : Nat)
  deriving DecidableEq

/-- There is such an entry. -/
def KeyAccess.InBounds : KeyAccess → Prop
  | pressedFlags i => i < 86
  | scancode i => i < 172
  | saveBuf t i => (0 ≤ t ∧ t < 3) ∧ i < 128
  | lineBuf t i => (0 ≤ t ∧ t < 3) ∧ i < 128
  | lastBuf i => i < 128

instance : DecidablePred KeyAccess.InBounds
  | .pressedFlags i => inferInstanceAs (Decidable (i < 86))
  | .scancode i => inferInstanceAs (Decidable (i < 172))
  | .saveBuf t i => inferInstanceAs (Decidable ((0 ≤ t ∧ t < 3) ∧ i < 128))
  | .lineBuf t i => inferInstanceAs (Decidable ((0 ≤ t ∧ t < 3) ∧ i < 128))
  | .lastBuf i => inferInstanceAs (Decidable (i < 128))

/-! ## The keys that stay inside the arrays -/

/-- The bytes for which there is an entry in `pressed_flags`, and those that need none. -/
def InTable (c : UInt8) : Prop := c ≤ 0x55 ∨ (0x80 ≤ c ∧ c ≤ 0xD5) ∨ 0xD8 < c

instance (c : UInt8) : Decidable (InTable c) := inferInstanceAs (Decidable (_ ∨ _))

/-- The name of entry `i` is the last word, and it agrees with what is behind the word in the buffer
to the end of the buffer, before it has 32 characters. -/
def RunsOut (img : Image) (buf : Nat → UInt8) (idx i : Nat) : Prop :=
  97 ≤ wordStart buf idx ∧ wordStart buf idx < idx ∧
    img.filename i (idx - wordStart buf idx : Nat) = 0 ∧
    ∀ j : Nat, wordStart buf idx + j < 128 → img.filename i j = buf (wordStart buf idx + j)

/-- No name that the search comes to runs out of the buffer. -/
def TabStays (img : Image) (buf : Nat → UInt8) (idx : Nat) : Prop :=
  ∀ i, i < img.dirCount.toNat →
    (∀ j, j < i → ¬ NameGoesOn img (lastWord (bufText buf idx)) j) → ¬ RunsOut img buf idx i

/-! ## The functions with their accesses -/

namespace Touching

/-- `while(start_idx > 0)` of `fs_search`. -/
def wordStart (t : Int) (buf : Nat → UInt8) : Nat → Traced KeyAccess Nat
  | 0 => pure 0
  | startIdx + 1 => do
    touch (.saveBuf t startIdx)
    if buf startIdx = 32 then pure (startIdx + 1) else wordStart t buf startIdx

/-- The loop of `fs_search` over the characters of a name. -/
def prefixMatch (t : Int) (compare buf : Nat → UInt8) (startIdx idx : Nat) :
    Nat → Nat → Traced KeyAccess (Option Nat)
  | 0, _ => pure none
  | turns + 1, charIdx =>
    if startIdx + charIdx = idx ∧ compare charIdx ≠ 0 then pure (some charIdx)
    else do
      touch (.saveBuf t (startIdx + charIdx))
      if compare charIdx ≠ buf (startIdx + charIdx) then pure none
      else prefixMatch t compare buf startIdx idx turns (charIdx + 1)

/-- The copy of the rest of a name. -/
def appendName (t : Int) (compare : Nat → UInt8) :
    Nat → Nat → SearchResult → Traced KeyAccess SearchResult
  | 0, _, st => pure st
  | turns + 1, charIdx, st =>
    if compare charIdx ≠ 0 ∧ st.idx ≤ 126 then do
      touch (.saveBuf t st.idx)
      appendName t compare turns (charIdx + 1)
        { buf := Function.update st.buf st.idx (compare charIdx)
          idx := st.idx + 1
          echo := st.echo ++ [compare charIdx] }
    else pure st

/-- The loop of `fs_search` over the entries. -/
def searchEntries (img : Image) (t : Int) (buf : Nat → UInt8) (startIdx idx : Nat) :
    Nat → Nat → Traced KeyAccess SearchResult
  | 0, _ => pure ⟨buf, idx, []⟩
  | turns + 1, i => do
    let compare := fun k : Nat => img.filename i k
    match ← prefixMatch t compare buf startIdx idx 32 0 with
    | some charIdx => appendName t compare (32 - charIdx) charIdx ⟨buf, idx, []⟩
    | none => searchEntries img t buf startIdx idx turns (i + 1)

/-- `fs_search(terminals[t].save_buf, idx)`. -/
def fsSearch (img : Image) (t : Int) (buf : Nat → UInt8) (idx : Nat) :
    Traced KeyAccess SearchResult :=
  if idx > 0 then do
    touch (.saveBuf t (idx - 1))
    if buf (idx - 1) = 32 then pure ⟨buf, idx, []⟩
    else
      let startIdx ← wordStart t buf idx
      searchEntries img t buf startIdx idx img.dirCount.toNat 0
  else pure ⟨buf, idx, []⟩

/-- `my_strcpy(dest, src)`, with the names of the entries that it reads and writes. The model knows
nothing of what is behind the arrays; there is a turn for the first entry behind them. -/
def myStrcpy (read write : Nat → KeyAccess) (src : Nat → UInt8) :
    Nat → Nat → (Nat → UInt8) → Traced KeyAccess (Nat → UInt8)
  | 0, _, dest => pure dest
  | turns + 1, i, dest => do
    touch (read i)
    touch (write i)
    if src i = 10 then pure (Function.update dest i 10)
    else myStrcpy read write src turns (i + 1) (Function.update dest i (src i))

/-- The shift of the table. -/
def shiftCode (c : UInt8) (k : Console) : Traced KeyAccess UInt8 := do
  touch (.pressedFlags 0x2A)
  -- the right key is looked at when the left one is up
  (if k.pressedFlags 0x2A = 0 then touch (.pressedFlags 0x36) else pure ())
  pure (k.shiftCode c)

def autocomplete (img : Image) (k : Console) : Traced KeyAccess Console := do
  let found ← fsSearch img k.handlerTerminal (k.saveBuf k.handlerTerminal) k.keyboardBufIdx
  pure { k with
    toDisplay := k.toDisplay.printf found.echo
    saveBuf := Function.update k.saveBuf k.handlerTerminal found.buf
    keyboardBufIdx := found.idx }

def lookup (img : Image) (c : UInt8) (k : Console) : Traced KeyAccess (Option UInt8 × Console) := do
  let c ← shiftCode c k
  let k ← (if c = 0x0F then autocomplete img k else pure k)
  touch (.scancode c.toNat)
  let ret := scancode.getD c.toNat 0
  pure (some (if ret = 0 then dontPrint else ret), k)

/-- `terminal_write(1, save_buf, n)`: it reads the first `n` characters, of which `i` are read. -/
def readLine (t : Int) : Nat → Nat → Traced KeyAccess Unit
  | 0, _ => pure ()
  | n + 1, i => do
    touch (.saveBuf t i)
    readLine t n (i + 1)

/-- A key that has been pressed. The tests of one flag are one access, and the branches without an
access of their own are the plain ones. -/
def pressed (img : Image) (entered : Bool) (c : UInt8) (k : Console) :
    Traced KeyAccess (Option UInt8 × Console) :=
  if c = 0x3A then pure (k.pressed img entered c)
  else do
    touch (.pressedFlags 0x1D)
    if k.pressedFlags 0x1D ≠ 0 ∧ c = 0x26 then do
      readLine k.handlerTerminal k.keyboardBufIdx 0
      pure (k.pressed img entered c)
    else if k.pressedFlags 0x1D ≠ 0 ∧ c = 0x2E then do
      touch (.saveBuf k.handlerTerminal k.keyboardBufIdx)
      pure (k.pressed img entered c)
    else if k.pressedFlags 0x1D ≠ 0 ∧ c = 0x14 then pure (k.pressed img entered c)
    else do
      touch (.pressedFlags 0x38)
      if k.pressedFlags 0x38 ≠ 0 ∧ 0x3B ≤ c ∧ c < 0x3E then pure (k.pressed img entered c)
      else if c = 0x4B ∨ c = 0x4D then pure (k.pressed img entered c)
      else if c = 0x48 ∨ c = 0x50 then pure (k.pressed img entered c)
      else if c = 0x0E ∧ 0 < k.keyboardBufIdx then pure (k.pressed img entered c)
      else lookup img c k

def getChar (img : Image) (entered : Bool) (c : UInt8) (k : Console) :
    Traced KeyAccess (Option UInt8 × Console) :=
  if c ≤ 0x58 then do
    touch (.pressedFlags c.toNat)
    pressed img entered c (k.raiseFlag c)
  else if c ≤ 0xD8 then do
    touch (.pressedFlags (c &&& 0x7F).toNat)
    pure (some dontPrint,
      { k with pressedFlags := Function.update k.pressedFlags (c &&& 0x7F).toNat 0 })
  else pure (some dontPrint, k)

def storeChar (c : UInt8) (k : Console) : Traced KeyAccess Console := do
  touch (.saveBuf k.handlerTerminal k.keyboardBufIdx)
  pure (k.storeChar c)

def completeLine (k : Console) : Traced KeyAccess Console := do
  let t := k.handlerTerminal
  let line ← (if 0 ≤ t ∧ t < 3 then
      myStrcpy (.saveBuf t) (.lineBuf t) (k.saveBuf t) 129 0 (k.lineBuf t)
    else pure (k.lineBuf t))
  let last ← myStrcpy (.saveBuf t) .lastBuf (k.saveBuf t) 129 0 k.lastBuf
  touch (.saveBuf t 0)
  pure { k with
    lineBuf := Function.update k.lineBuf t line
    lastBuf := last
    lastIdx := k.keyboardBufIdx
    keyboardBufIdx := 0
    numChars := 0
    saveBuf := Function.update k.saveBuf t (Function.update (k.saveBuf t) 0 0) }

def handleChar (test : UInt8) (k : Console) : Traced KeyAccess Console :=
  if test = dontPrint then pure k.storeIdx
  else if k.keyboardBufIdx = 127 ∧ test ≠ 10 then storeChar 10 k
  else do
    let k ← storeChar test k
    let k ← (if test ≠ 10 then
        pure { k with
          keyboardBufIdx := k.keyboardBufIdx + 1
          numChars := if (k.keyboardBufIdx : Int) + 1 > k.numChars then k.keyboardBufIdx + 1
            else k.numChars }
      else completeLine k)
    pure { k with toDisplay := k.toDisplay.keyPutc test }.storeIdx

def keyboardHandler (img : Image) (entered : Bool) (c : UInt8) (k : Console) :
    Traced KeyAccess Console := do
  match ← getChar img entered c k.loadIdx with
  | (none, k) => pure k
  | (some test, k) => handleChar test k

/-- One step of `terminal_read`: only the test, the copy and the end have an access. -/
def readStep (p : Int) (s : LineSystem) : Traced KeyAccess LineSystem := do
  (match s.phase p with
    | .test a => touch (.lineBuf a 0)
    | .copy a copied => touch (.lineBuf a copied.length)
    | .clear a _ => touch (.lineBuf a 0)
    | _ => pure ())
  pure (SrirachOS.readStep p s)

/-! ## The same values -/

theorem wordStart_value (t : Int) (buf : Nat → UInt8) (n : Nat) :
    (wordStart t buf n).value = SrirachOS.wordStart buf n := by
  induction n with
  | zero => rfl
  | succ n ih => simp [wordStart, SrirachOS.wordStart, ih]

theorem prefixMatch_value (t : Int) (compare buf : Nat → UInt8) (startIdx idx turns charIdx : Nat) :
    (prefixMatch t compare buf startIdx idx turns charIdx).value =
      SrirachOS.prefixMatch compare buf startIdx idx turns charIdx := by
  induction turns generalizing charIdx with
  | zero => rfl
  | succ turns ih => simp [prefixMatch, SrirachOS.prefixMatch, ih]

theorem appendName_value (t : Int) (compare : Nat → UInt8) (turns charIdx : Nat)
    (st : SearchResult) :
    (appendName t compare turns charIdx st).value =
      SrirachOS.appendName compare turns charIdx st := by
  induction turns generalizing charIdx st with
  | zero => rfl
  | succ turns ih => simp [appendName, SrirachOS.appendName, ih]

theorem searchEntries_value (img : Image) (t : Int) (buf : Nat → UInt8)
    (startIdx idx turns i : Nat) :
    (searchEntries img t buf startIdx idx turns i).value =
      SrirachOS.searchEntries img buf startIdx idx turns i := by
  induction turns generalizing i with
  | zero => rfl
  | succ turns ih =>
    rw [searchEntries, SrirachOS.searchEntries, value_bind, prefixMatch_value]
    cases SrirachOS.prefixMatch (fun k : Nat => img.filename i k) buf startIdx idx 32 0 with
    | none => exact ih (i + 1)
    | some charIdx => exact appendName_value ..

theorem searchWord_value (img : Image) (t : Int) (buf : Nat → UInt8) (idx turns : Nat) :
    (wordStart t buf idx >>= fun startIdx => searchEntries img t buf startIdx idx turns 0).value =
      SrirachOS.searchEntries img buf (SrirachOS.wordStart buf idx) idx turns 0 := by
  rw [value_bind, wordStart_value, searchEntries_value]

theorem fsSearch_value (img : Image) (t : Int) (buf : Nat → UInt8) (idx : Nat) :
    (fsSearch img t buf idx).value = SrirachOS.fsSearch img buf idx := by
  unfold fsSearch SrirachOS.fsSearch
  by_cases hidx : idx > 0
  · rw [if_pos hidx, value_bind, value_ite]
    by_cases hspace : buf (idx - 1) = 32
    · rw [if_pos hspace, if_pos ⟨hidx, hspace⟩, value_pure]
    · rw [if_neg hspace, if_neg (fun h => hspace h.2), if_pos hidx, searchWord_value]
  · rw [if_neg hidx, if_neg (fun h => hidx h.1), if_neg hidx, value_pure]

theorem autocomplete_value (img : Image) (k : Console) :
    (autocomplete img k).value = k.autocomplete img := by
  unfold autocomplete Console.autocomplete
  rw [value_bind, fsSearch_value, value_pure]

theorem lookup_value (img : Image) (c : UInt8) (k : Console) :
    (lookup img c k).value = k.lookup img c := by
  have hcode : (shiftCode c k).value = k.shiftCode c := by
    unfold shiftCode
    rw [value_bind, value_bind, value_pure]
  unfold lookup Console.lookup
  simp only [value_bind, value_ite, value_pure, hcode, autocomplete_value]

theorem pressed_value (img : Image) (entered : Bool) (c : UInt8) (k : Console) :
    (pressed img entered c k).value = k.pressed img entered c := by
  unfold pressed
  by_cases hcaps : c = 0x3A
  · rw [if_pos hcaps, value_pure]
  · rw [if_neg hcaps]
    simp only [value_bind, value_ite, value_pure, lookup_value]
    split_ifs with hclear hinterrupt hcolor hswitch hhorizontal hvertical herase
    iterate 7 rfl
    -- the key is none of those before
    unfold Console.pressed
    rw [if_neg hcaps, if_neg hclear, if_neg hinterrupt, if_neg hcolor, if_neg hswitch,
      if_neg hhorizontal, if_neg hvertical, if_neg herase]

theorem getChar_value (img : Image) (entered : Bool) (c : UInt8) (k : Console) :
    (getChar img entered c k).value = k.getChar img entered c := by
  simp [getChar, Console.getChar, pressed_value]

/-- The turn behind the arrays is not needed when there is a newline in them. -/
theorem myStrcpy_value {read write : Nat → KeyAccess} {src : Nat → UInt8} {p turns i : Nat}
    (hnl : src p = 10) (hi : i ≤ p) (hp : p < i + turns) (dest : Nat → UInt8) :
    (myStrcpy read write src (turns + 1) i dest).value = SrirachOS.myStrcpy src turns i dest := by
  induction turns generalizing i dest with
  | zero => omega
  | succ turns ih =>
    rw [myStrcpy, SrirachOS.myStrcpy, value_bind, value_bind, value_ite, value_pure]
    by_cases hend : src i = 10
    · rw [if_pos hend, if_pos hend]
    · have hne : i ≠ p := fun heq => hend (by rw [heq]; exact hnl)
      rw [if_neg hend, if_neg hend]
      exact ih (by omega) (by omega) _

theorem completeLine_value {k : Console} {n : Nat} (hn : n ≤ 127)
    (hnl : k.saveBuf k.handlerTerminal n = 10) : (completeLine k).value = k.completeLine := by
  have hcopy : ∀ (read write : Nat → KeyAccess) (dest : Nat → UInt8),
      (myStrcpy read write (k.saveBuf k.handlerTerminal) 129 0 dest).value =
        SrirachOS.myStrcpy (k.saveBuf k.handlerTerminal) 128 0 dest :=
    fun _ _ dest => myStrcpy_value hnl (Nat.zero_le n) (by omega) dest
  unfold completeLine Console.completeLine
  simp only [value_bind, value_pure, value_ite, hcopy]
  by_cases ht : 0 ≤ k.handlerTerminal ∧ k.handlerTerminal < 3
  · rw [if_pos ht, if_pos ht]
  · rw [if_neg ht, if_neg ht, Function.update_eq_self]

theorem handleChar_value {k : Console} (hidx : k.keyboardBufIdx ≤ 127) (test : UInt8) :
    (handleChar test k).value = k.handleChar test := by
  unfold handleChar Console.handleChar
  by_cases hprint : test = dontPrint
  · rw [if_pos hprint, if_pos hprint, value_pure]
  · rw [if_neg hprint, if_neg hprint]
    by_cases hfull : k.keyboardBufIdx = 127 ∧ test ≠ 10
    · rw [if_pos hfull, if_pos hfull]
      rfl
    · rw [if_neg hfull, if_neg hfull]
      by_cases henter : test = 10
      · have hline : (completeLine (k.storeChar test)).value = (k.storeChar test).completeLine := by
          apply completeLine_value hidx
          rw [henter]
          simp [Console.storeChar]
        have hnl : ¬ test ≠ 10 := fun h => h henter
        simp only [value_bind, value_pure, if_neg hnl, ← hline]
        rfl
      · simp only [value_bind, value_pure, if_pos henter]
        rfl

/-- **The same program**: while lines are being typed, the handler with its accesses leaves behind
what the handler does. -/
theorem keyboardHandler_value {k : Console} (h : Typing k) (img : Image) (entered : Bool)
    (c : UInt8) : (keyboardHandler img entered c k).value = k.keyboardHandler img entered c := by
  have hidx := ((getChar_keeps img entered c k.loadIdx).text (h.text k.activeTerminal)).1
  unfold keyboardHandler Console.keyboardHandler
  rw [value_bind, getChar_value]
  obtain ⟨r, k', hget⟩ : ∃ r k', k.loadIdx.getChar img entered c = (r, k') := ⟨_, _, rfl⟩
  rw [hget] at hidx ⊢
  cases r with
  | none => rfl
  | some test => exact handleChar_value hidx test

/-! ## Accesses inside the arrays -/

theorem myStrcpy_within {P : KeyAccess → Prop} {read write : Nat → KeyAccess} {src : Nat → UInt8}
    {p : Nat} (hP : ∀ j, j ≤ p → P (read j) ∧ P (write j)) (hnl : src p = 10) (turns : Nat) {i : Nat}
    (hi : i ≤ p) (dest : Nat → UInt8) : (myStrcpy read write src turns i dest).Within P := by
  induction turns generalizing i dest with
  | zero => exact within_pure _
  | succ turns ih =>
    rw [myStrcpy, within_bind, within_bind, within_touch, within_touch, within_ite]
    refine ⟨(hP i hi).1, (hP i hi).2, ?_⟩
    split
    · exact within_pure _
    · next hgo =>
      have hne : i ≠ p := fun heq => hgo (by rw [heq]; exact hnl)
      exact ih (by omega) _

/-- **The copies**: with a newline in the line they end inside the arrays. -/
theorem completeLine_within {k : Console} (ht : 0 ≤ k.handlerTerminal ∧ k.handlerTerminal < 3)
    {n : Nat} (hn : n ≤ 127) (hnl : k.saveBuf k.handlerTerminal n = 10) :
    (completeLine k).Within KeyAccess.InBounds := by
  unfold completeLine
  simp only [within_bind, within_touch, within_pure, and_true]
  rw [if_pos ht]
  refine ⟨?_, ?_, ht, by omega⟩
  · refine myStrcpy_within (fun j hj => ?_) hnl _ (Nat.zero_le n) _
    exact ⟨⟨ht, by omega⟩, ht, by omega⟩
  · refine myStrcpy_within (fun j hj => ?_) hnl _ (Nat.zero_le n) _
    exact ⟨⟨ht, by omega⟩, show j < 128 by omega⟩

theorem handleChar_within {k : Console} (ht : 0 ≤ k.handlerTerminal ∧ k.handlerTerminal < 3)
    (hidx : k.keyboardBufIdx ≤ 127) (test : UInt8) :
    (handleChar test k).Within KeyAccess.InBounds := by
  have hstore : ∀ c, (storeChar c k).Within KeyAccess.InBounds := by
    intro c
    rw [storeChar, within_bind, within_touch]
    exact ⟨⟨ht, by omega⟩, within_pure _⟩
  unfold handleChar
  by_cases hprint : test = dontPrint
  · rw [if_pos hprint]
    exact within_pure _
  · rw [if_neg hprint]
    by_cases hfull : k.keyboardBufIdx = 127 ∧ test ≠ 10
    · rw [if_pos hfull]
      exact hstore 10
    · rw [if_neg hfull, within_bind, within_bind]
      refine ⟨hstore test, ?_, within_pure _⟩
      by_cases henter : test = 10
      · have hnl : (k.storeChar test).saveBuf k.handlerTerminal k.keyboardBufIdx = 10 := by
          rw [henter]
          simp [Console.storeChar]
        rw [if_neg (fun h => h henter)]
        exact completeLine_within (k := k.storeChar test) ht hidx hnl
      · rw [if_pos henter]
        exact within_pure _

theorem wordStart_within {t : Int} (ht : 0 ≤ t ∧ t < 3) (buf : Nat → UInt8) {n : Nat} (hn : n ≤ 128) :
    (wordStart t buf n).Within KeyAccess.InBounds := by
  induction n with
  | zero => exact within_pure _
  | succ n ih =>
    rw [wordStart, within_bind, within_touch, within_ite]
    refine ⟨⟨ht, by omega⟩, ?_⟩
    split
    · exact within_pure _
    · exact ih (by omega)

/-- A name is appended below the last entry. -/
theorem appendName_within {t : Int} (ht : 0 ≤ t ∧ t < 3) (compare : Nat → UInt8) (turns charIdx : Nat)
    (st : SearchResult) : (appendName t compare turns charIdx st).Within KeyAccess.InBounds := by
  induction turns generalizing charIdx st with
  | zero => exact within_pure _
  | succ turns ih =>
    rw [appendName, within_ite]
    split
    · next hgo =>
      rw [within_bind, within_touch]
      exact ⟨⟨ht, by omega⟩, ih _ _⟩
    · exact within_pure _

theorem readLine_within {t : Int} (ht : 0 ≤ t ∧ t < 3) {n i : Nat} (h : n + i ≤ 128) :
    (readLine t n i).Within KeyAccess.InBounds := by
  induction n generalizing i with
  | zero => exact within_pure _
  | succ n ih =>
    rw [readLine, within_bind, within_touch]
    exact ⟨⟨ht, by omega⟩, ih (by omega)⟩

/-- **The comparison with a name** leaves the buffer when the name agrees with everything up to the
end of the buffer, and ends where the word does. -/
theorem prefixMatch_within_iff {t : Int} (ht : 0 ≤ t ∧ t < 3) (compare buf : Nat → UInt8)
    {startIdx idx : Nat} (hidx : idx ≤ 127) {turns charIdx : Nat} (hturns : charIdx + turns = 32)
    (hin : startIdx + charIdx ≤ 128) :
    (prefixMatch t compare buf startIdx idx turns charIdx).Within KeyAccess.InBounds ↔
      ¬ (97 ≤ startIdx ∧
        (∀ j, charIdx ≤ j → startIdx + j < 128 → compare j = buf (startIdx + j)) ∧
        (startIdx + charIdx ≤ idx → compare (idx - startIdx) = 0)) := by
  induction turns generalizing charIdx with
  | zero => exact iff_of_true (within_pure _) fun h => absurd h.1 (by omega)
  | succ turns ih =>
    rw [prefixMatch, within_ite]
    by_cases hmatched : startIdx + charIdx = idx ∧ compare charIdx ≠ 0
    · rw [if_pos hmatched]
      refine iff_of_true (within_pure _) fun h => hmatched.2 ?_
      have hend := h.2.2 (by omega)
      rwa [show idx - startIdx = charIdx by omega] at hend
    · rw [if_neg hmatched, within_bind, within_touch, within_ite]
      -- inside the buffer the comparison goes on as long as the characters agree
      rcases Nat.lt_or_eq_of_le hin with hlt | hout
      · by_cases hsame : compare charIdx = buf (startIdx + charIdx)
        · rw [if_neg (fun h => h hsame), ih (by omega) (by omega)]
          refine (and_iff_right (show (KeyAccess.saveBuf t _).InBounds from ⟨ht, hlt⟩)).trans
            (not_congr ?_)
          refine and_congr_right fun _ => and_congr ⟨fun h j hj => ?_, fun h j hj => h j (by omega)⟩
            ⟨fun h hle => ?_, fun h hle => h (by omega)⟩
          · rcases eq_or_ne j charIdx with rfl | hne
            · exact fun _ => hsame
            · exact h j (by omega)
          · by_cases hend : startIdx + charIdx = idx
            · rw [show idx - startIdx = charIdx by omega]
              by_contra hmore
              exact hmatched ⟨hend, hmore⟩
            · exact h (by omega)
        · rw [if_pos hsame]
          exact iff_of_true ⟨⟨ht, hlt⟩, within_pure _⟩ fun h => hsame (h.2.1 charIdx (le_refl _) hlt)
      · -- the next access is the one behind the buffer
        refine iff_of_false (fun h => ?_) (not_not_intro ⟨by omega, fun j hj hlt => ?_, fun h => ?_⟩)
        · have hlt : startIdx + charIdx < 128 := h.1.2
          omega
        · omega
        · omega

/-- The search stays inside the buffer when each comparison that it comes to does. -/
theorem searchEntries_within_iff (img : Image) {t : Int} (ht : 0 ≤ t ∧ t < 3) (buf : Nat → UInt8)
    {startIdx idx : Nat} (hle : startIdx ≤ idx) (turns i : Nat) :
    (searchEntries img t buf startIdx idx turns i).Within KeyAccess.InBounds ↔
      ∀ j, i ≤ j → j < i + turns → (∀ m, i ≤ m → m < j →
          ¬ NameGoesOn img (bufText (fun k => buf (startIdx + k)) (idx - startIdx)) m) →
        (prefixMatch t (fun k : Nat => img.filename j k) buf startIdx idx 32 0).Within
          KeyAccess.InBounds := by
  induction turns generalizing i with
  | zero => exact iff_of_true (within_pure _) fun j h1 h2 => absurd h2 (by omega)
  | succ turns ih =>
    rw [searchEntries, within_bind, prefixMatch_value, prefixMatch_name img buf hle]
    -- the search ends at the first name that goes on: those behind it are not compared
    by_cases hgo : NameGoesOn img (bufText (fun k => buf (startIdx + k)) (idx - startIdx)) i
    · rw [if_pos hgo]
      constructor
      · rintro ⟨hfirst, -⟩ j hij hj hnone
        rcases eq_or_ne j i with rfl | hne
        · exact hfirst
        · exact absurd hgo (hnone i (le_refl i) (by omega))
      · intro h
        exact ⟨h i (le_refl i) (by omega) fun m h1 h2 => absurd h1 (by omega),
          appendName_within ht _ _ _ _⟩
    · rw [if_neg hgo]
      refine (and_congr_right fun _ => ih (i + 1)).trans ⟨?_, fun h => ⟨?_, ?_⟩⟩
      · rintro ⟨hfirst, hrest⟩ j hij hj hnone
        rcases eq_or_ne j i with rfl | hne
        · exact hfirst
        · exact hrest j (by omega) (by omega) fun m h1 h2 => hnone m (by omega) h2
      · exact h i (le_refl i) (by omega) fun m h1 h2 => absurd h1 (by omega)
      · intro j hij hj hnone
        refine h j (by omega) (by omega) fun m h1 h2 => ?_
        rcases eq_or_ne m i with rfl | hne
        · exact hgo
        · exact hnone m (by omega) h2

theorem fsSearch_within_iff (img : Image) {t : Int} (ht : 0 ≤ t ∧ t < 3) (buf : Nat → UInt8)
    {idx : Nat} (hidx : idx ≤ 127) :
    (fsSearch img t buf idx).Within KeyAccess.InBounds ↔ TabStays img buf idx := by
  obtain ⟨hle, hword⟩ := wordStart_lastWord buf idx
  -- without a word before the index there is nothing to compare
  have hnoWord : SrirachOS.wordStart buf idx = idx → TabStays img buf idx :=
    fun heq i _ _ h => absurd h.2.1 (by omega)
  unfold fsSearch
  by_cases hpos : idx > 0
  · rw [if_pos hpos, within_bind, within_touch, within_ite]
    refine (and_iff_right (show (KeyAccess.saveBuf t _).InBounds from ⟨ht, by omega⟩)).trans ?_
    by_cases hspace : buf (idx - 1) = 32
    · rw [if_pos hspace]
      refine iff_of_true (within_pure _) (hnoWord ?_)
      obtain ⟨n, rfl⟩ : ∃ n, idx = n + 1 := ⟨idx - 1, by omega⟩
      exact if_pos hspace
    · have hlt : SrirachOS.wordStart buf idx < idx := by
        obtain ⟨n, rfl⟩ : ∃ n, idx = n + 1 := ⟨idx - 1, by omega⟩
        have hstart : SrirachOS.wordStart buf (n + 1) = SrirachOS.wordStart buf n := if_neg hspace
        have := (wordStart_lastWord buf n).1
        omega
      rw [if_neg hspace, within_bind, wordStart_value, searchEntries_within_iff img ht buf hle,
        ← hword]
      refine (and_iff_right (wordStart_within ht buf (by omega))).trans ?_
      refine forall_congr' fun i => ?_
      rw [prefixMatch_within_iff ht _ buf hidx (by omega) (by omega)]
      constructor
      · rintro h hi hnone ⟨hfar, -, hend, hall⟩
        exact h (Nat.zero_le i) (by omega) (fun m _ hm => hnone m hm)
          ⟨hfar, fun j _ hj => hall j hj, fun _ => hend⟩
      · rintro h - hi hnone ⟨hfar, hall, hend⟩
        exact h (by omega) (fun m hm => hnone m (Nat.zero_le m) hm)
          ⟨hfar, hlt, hend hle, fun j hj => hall j (Nat.zero_le j) hj⟩
  · rw [if_neg hpos]
    exact iff_of_true (within_pure _) (hnoWord (by omega))

/-- **The table**: a key of `pressed_flags` has its two entries, and only Tab looks at the line. -/
theorem lookup_within_iff (img : Image) {c : UInt8} (hc : c ≤ 0x55) {k : Console}
    (ht : 0 ≤ k.handlerTerminal ∧ k.handlerTerminal < 3) (hidx : k.keyboardBufIdx ≤ 127) :
    (lookup img c k).Within KeyAccess.InBounds ↔
      (k.shiftCode c = 0x0F → TabStays img (k.saveBuf k.handlerTerminal) k.keyboardBufIdx) := by
  have hentries : ∀ c : UInt8, c ≤ 0x55 → c.toNat < 172 ∧ (c + 86).toNat < 172 := by
    apply forall_byte
    decide +kernel
  -- the entries of a key stand 86 apart
  have hentry : (k.shiftCode c).toNat < 172 := by
    rcases shiftCode_eq_or c k with hcode | hcode
    · rw [hcode]
      exact (hentries c hc).2
    · rw [hcode]
      exact (hentries c hc).1
  have hshift : (shiftCode c k).Within KeyAccess.InBounds := by
    rw [shiftCode, within_bind, within_touch, within_bind, within_ite]
    refine ⟨show 0x2A < 86 by omega, ?_, within_pure _⟩
    split
    · exact (within_touch _).mpr (show 0x36 < 86 by omega)
    · exact within_pure _
  have hcode : (shiftCode c k).value = k.shiftCode c := rfl
  rw [lookup, within_bind, hcode, within_bind, within_bind, within_touch, within_ite]
  refine (and_iff_right hshift).trans ?_
  refine (and_congr_right fun _ =>
    iff_of_true ⟨show (k.shiftCode c).toNat < 172 from hentry, within_pure _⟩ trivial).trans ?_
  rw [and_true]
  by_cases htab : k.shiftCode c = 0x0F
  · rw [if_pos htab, autocomplete, within_bind, fsSearch_within_iff img ht _ hidx]
    exact ⟨fun h _ => h.1, fun h => ⟨h htab, within_pure _⟩⟩
  · rw [if_neg htab]
    exact iff_of_true (within_pure _) fun h => absurd h htab

/-- Only Tab is looked up as Tab. -/
theorem shiftCode_eq_tab {c : UInt8} (hc : c ≤ 0x55) {k : Console} (h : k.shiftCode c = 0x0F) :
    c = 0x0F := by
  rcases shiftCode_eq_or c k with hcode | hcode
  · exact absurd (hcode.symm.trans h) (shifted_ne_tab hc)
  · exact hcode.symm.trans h

theorem pressed_within_iff (img : Image) (entered : Bool) {c : UInt8} (hc : c ≤ 0x55) {k : Console}
    (ht : 0 ≤ k.handlerTerminal ∧ k.handlerTerminal < 3) (hidx : k.keyboardBufIdx ≤ 127) :
    (pressed img entered c k).Within KeyAccess.InBounds ↔
      (k.shiftCode c = 0x0F → TabStays img (k.saveBuf k.handlerTerminal) k.keyboardBufIdx) := by
  -- in the branches before the table the key is not Tab
  have hother : ∀ r : Option UInt8 × Console, c ≠ 0x0F →
      ((pure r : Traced KeyAccess _).Within KeyAccess.InBounds ↔
        (k.shiftCode c = 0x0F → TabStays img (k.saveBuf k.handlerTerminal) k.keyboardBufIdx)) :=
    fun r hne => iff_of_true (within_pure r) fun h => absurd (shiftCode_eq_tab hc h) hne
  have hctl : (KeyAccess.pressedFlags 0x1D).InBounds := show 0x1D < 86 by omega
  have halt : (KeyAccess.pressedFlags 0x38).InBounds := show 0x38 < 86 by omega
  unfold pressed
  by_cases hcaps : c = 0x3A
  · rw [if_pos hcaps]
    exact hother _ (by rw [hcaps]; decide)
  rw [if_neg hcaps, within_bind, within_touch]
  refine (and_iff_right hctl).trans ?_
  by_cases hclear : k.pressedFlags 0x1D ≠ 0 ∧ c = 0x26
  · rw [if_pos hclear, within_bind]
    exact (and_iff_right (readLine_within ht (by omega))).trans (hother _ (by rw [hclear.2]; decide))
  rw [if_neg hclear]
  by_cases hinterrupt : k.pressedFlags 0x1D ≠ 0 ∧ c = 0x2E
  · rw [if_pos hinterrupt, within_bind, within_touch]
    exact (and_iff_right (show (KeyAccess.saveBuf _ _).InBounds from ⟨ht, by omega⟩)).trans
      (hother _ (by rw [hinterrupt.2]; decide))
  rw [if_neg hinterrupt]
  by_cases hcolor : k.pressedFlags 0x1D ≠ 0 ∧ c = 0x14
  · rw [if_pos hcolor]
    exact hother _ (by rw [hcolor.2]; decide)
  rw [if_neg hcolor, within_bind, within_touch]
  refine (and_iff_right halt).trans ?_
  -- of the remaining branches only the last one looks at the table
  split_ifs with hswitch hhorizontal hvertical herase
  · refine hother _ ?_
    rintro rfl
    exact absurd hswitch.2.1 (by decide)
  · exact hother _ (by rcases hhorizontal with rfl | rfl <;> decide)
  · exact hother _ (by rcases hvertical with rfl | rfl <;> decide)
  · exact hother _ (by rw [herase.1]; decide)
  · exact lookup_within_iff img hc ht hidx

/-- **`getChar`** stays inside its arrays for the keys of the table, and for Tab when the search
does. -/
theorem getChar_within_iff (img : Image) (entered : Bool) (c : UInt8) {k : Console}
    (ht : 0 ≤ k.handlerTerminal ∧ k.handlerTerminal < 3) (hidx : k.keyboardBufIdx ≤ 127) :
    (getChar img entered c k).Within KeyAccess.InBounds ↔
      InTable c ∧ (c = 0x0F → k.shiftCode c = 0x0F →
        TabStays img (k.saveBuf k.handlerTerminal) k.keyboardBufIdx) := by
  -- a byte above the keys of the table is not Tab
  have hother : ¬ c ≤ 0x55 → c ≠ 0x0F := by
    rintro h rfl
    exact h (by decide)
  -- the handler takes bytes up to 0x58 for presses, three more than `pressed_flags` has entries
  have hflag : ∀ c : UInt8, c ≤ 0x58 → (c.toNat < 86 ↔ c ≤ 0x55) ∧ (InTable c ↔ c ≤ 0x55) := by
    apply forall_byte
    decide +kernel
  have hrelease : ∀ c : UInt8, ¬ c ≤ 0x58 → c ≤ 0xD8 →
      ((c &&& 0x7F).toNat < 86 ↔ InTable c) ∧ ¬ c ≤ 0x55 := by
    apply forall_byte
    decide +kernel
  have hrest : ∀ c : UInt8, ¬ c ≤ 0x58 → ¬ c ≤ 0xD8 → InTable c ∧ ¬ c ≤ 0x55 := by
    apply forall_byte
    decide +kernel
  unfold getChar
  by_cases hpress : c ≤ 0x58
  · obtain ⟨hentry, htable⟩ := hflag c hpress
    rw [if_pos hpress, within_bind, within_touch, htable]
    refine (and_congr_left' (show (KeyAccess.pressedFlags c.toNat).InBounds ↔ _ from hentry)).trans
      (and_congr_right fun hc => ?_)
    refine (pressed_within_iff (k := k.raiseFlag c) img entered hc ht hidx).trans ?_
    constructor
    · rintro h rfl hcode
      exact h hcode
    · intro h hcode
      obtain rfl := shiftCode_eq_tab hc hcode
      exact h rfl hcode
  · rw [if_neg hpress]
    by_cases hup : c ≤ 0xD8
    · obtain ⟨hentry, hnot⟩ := hrelease c hpress hup
      rw [if_pos hup, within_bind, within_touch]
      exact and_congr hentry (iff_of_true (within_pure _) fun h => absurd h (hother hnot))
    · obtain ⟨htable, hnot⟩ := hrest c hpress hup
      rw [if_neg hup]
      exact iff_of_true (within_pure _) ⟨htable, fun h => absurd h (hother hnot)⟩

/-- **One key**: which accesses of the handler are inside its arrays. -/
theorem keyboardHandler_within_iff {k : Console} (h : Typing k) (img : Image) (entered : Bool)
    (c : UInt8) :
    (keyboardHandler img entered c k).Within KeyAccess.InBounds ↔
      InTable c ∧ (c = 0x0F → k.shiftCode c = 0x0F →
        TabStays img (k.saveBuf k.activeTerminal) (k.saveIdx k.activeTerminal)) := by
  have hkeeps := getChar_keeps img entered c k.loadIdx
  have htext := h.text k.activeTerminal
  have hget := getChar_within_iff (k := k.loadIdx) img entered c h.active htext.1
  unfold keyboardHandler
  rw [within_bind, getChar_value]
  refine (and_iff_left ?_).trans hget
  obtain ⟨r, k', heq⟩ : ∃ r k', k.loadIdx.getChar img entered c = (r, k') := ⟨_, _, rfl⟩
  rw [heq] at hkeeps ⊢
  cases r with
  | none => exact within_pure _
  | some test =>
    have hhandler : k'.handlerTerminal = k.activeTerminal := hkeeps.handler
    exact handleChar_within (by rw [hhandler]; exact h.active) (hkeeps.text htext).1 test

/-- An event with its accesses: a key, or a step of a read. -/
def lineStep (img : Image) (s : LineSystem) : LineEvent → Traced KeyAccess LineSystem
  | .key c entered => do
    let k ← keyboardHandler img entered c s.console
    pure { SrirachOS.lineStep img s (.key c entered) with console := k }
  | .step p => readStep p s
  | e => pure (SrirachOS.lineStep img s e)

theorem lineStep_value {s : LineSystem} (h : Typing s.console) (img : Image) (e : LineEvent) :
    (lineStep img s e).value = SrirachOS.lineStep img s e := by
  cases e with
  | key c entered =>
    rw [lineStep, value_bind, keyboardHandler_value h, value_pure]
    rfl
  | schedule processNum mainProcess currTask => rfl
  | read p => rfl
  | step p => rfl

end Touching

/-! ## Runs -/

/-- Every access of the event is inside its array. -/
def Bounded (img : Image) (s : LineSystem) (e : LineEvent) : Prop :=
  (Touching.lineStep img s e).Within KeyAccess.InBounds

instance (img : Image) (s : LineSystem) (e : LineEvent) : Decidable (Bounded img s e) :=
  inferInstanceAs (Decidable (Within _ _))

/-- The byte is one that the arrays have room for; and if it is an unshifted Tab, then so is the
search for the last word. -/
def KeyOk (img : Image) (s : LineSystem) : LineEvent → Prop
  | .key c _ =>
    InTable c ∧ (c = 0x0F → s.console.shiftCode c = 0x0F →
      TabStays img (s.console.saveBuf s.console.activeTerminal)
        (s.console.saveIdx s.console.activeTerminal))
  | _ => True

/-- There is a newline in the buffer at `n` or behind it. -/
def NewlineFrom (buf : Nat → UInt8) (n : Nat) : Prop := ∃ j, n ≤ j ∧ j < 128 ∧ buf j = 10

/-- A read that empties a buffer leaves a newline in it for every other read that has found the line
and copied none of it. -/
def ReadOk (s : LineSystem) : LineEvent → Prop
  | .step p =>
    ∀ a line, s.phase p = .clear a line → ∀ q, s.phase q = .copy a [] →
      NewlineFrom (s.console.lineBuf a) 1
  | _ => True

/-- A read is in the case of terminal `a`. -/
def ReadPhase.uses (a : Int) : ReadPhase → Prop
  | .check b => b = a
  | .test b => b = a
  | .copy b _ => b = a
  | .clear b _ => b = a
  | _ => False

/-- The lines end inside their buffers, and in front of the reads that copy them. -/
structure BoundInv (s : LineSystem) : Prop where
  typing : Typing s.console
  idx : s.console.keyboardBufIdx ≤ 127
  terminals : ∀ p a, (s.phase p).uses a → 0 ≤ a ∧ a < 3
  full : ∀ t, s.console.lineBuf t 0 ≠ 0 → NewlineFrom (s.console.lineBuf t) 0
  ahead : ∀ p a copied, s.phase p = .copy a copied →
    NewlineFrom (s.console.lineBuf a) copied.length

theorem boundInv_start (k : Console) : BoundInv (.start k) where
  typing := (lineInv_start k).typing
  idx := Nat.zero_le 127
  terminals _ _ h := h.elim
  full _ h := absurd rfl h
  ahead _ _ _ h := by cases h

/-! ### Keys -/

theorem handleChar_idx {k : Console} (h : k.keyboardBufIdx ≤ 127) (test : UInt8) :
    (k.handleChar test).keyboardBufIdx ≤ 127 := by
  unfold Console.handleChar
  split_ifs with hprint hfull henter
  · exact h
  · exact h
  · have hroom : k.keyboardBufIdx ≠ 127 := fun heq => hfull ⟨heq, henter⟩
    change k.keyboardBufIdx + 1 ≤ 127
    omega
  · exact Nat.zero_le 127

theorem Typing.key_idx {k : Console} (h : Typing k) (img : Image) (entered : Bool) (c : UInt8) :
    (k.keyboardHandler img entered c).keyboardBufIdx ≤ 127 := by
  have hidx := ((getChar_keeps img entered c k.loadIdx).text (h.text k.activeTerminal)).1
  unfold Console.keyboardHandler
  obtain ⟨r, k', hget⟩ : ∃ r k', k.loadIdx.getChar img entered c = (r, k') := ⟨_, _, rfl⟩
  rw [hget] at hidx ⊢
  cases r with
  | none => exact hidx
  | some test => exact handleChar_idx hidx test

/-- A line that is completed has a newline, and what is behind it stays as it is. -/
theorem Typing.completed_lineBuf {k : Console} (h : Typing k) {img : Image} {entered : Bool}
    {c : UInt8} (henter : k.completes img entered c) :
    ∃ p, p < 128 ∧ (k.keyboardHandler img entered c).lineBuf k.activeTerminal p = 10 ∧
      ∀ j, p < j → (k.keyboardHandler img entered c).lineBuf k.activeTerminal j =
        k.lineBuf k.activeTerminal j := by
  have hkeeps := getChar_keeps img entered c k.loadIdx
  obtain ⟨r, k', hget⟩ : ∃ r k', k.loadIdx.getChar img entered c = (r, k') := ⟨_, _, rfl⟩
  rw [hget] at hkeeps
  obtain rfl : r = some 10 := by
    unfold Console.completes at henter
    rwa [hget] at henter
  have hhandler : k'.handlerTerminal = k.activeTerminal := hkeeps.handler
  have hlines : k'.lineBuf = k.lineBuf := hkeeps.lines
  have hidx : k'.keyboardBufIdx ≤ 127 := (hkeeps.text (h.text k.activeTerminal)).1
  have hcopy : (k'.handleChar 10).lineBuf k.activeTerminal =
      myStrcpy (Function.update (k'.saveBuf k.activeTerminal) k'.keyboardBufIdx 10) 128 0
        (k.lineBuf k.activeTerminal) := by
    unfold Console.handleChar
    rw [if_neg (by decide : (10 : UInt8) ≠ dontPrint), if_neg (fun h => h.2 rfl)]
    unfold Console.storeIdx Console.completeLine Console.storeChar
    dsimp only
    rw [if_neg (fun h => h rfl), hhandler]
    dsimp only
    rw [if_pos h.active, Function.update_self, Function.update_self, hlines]
  obtain ⟨p, hp, hnl, -, hline⟩ := myStrcpy_ended (k'.saveBuf k.activeTerminal) hidx
    (k.lineBuf k.activeTerminal)
  rw [keyboardHandler_of_some hget, hcopy]
  refine ⟨p, by omega, ?_, fun j hj => ?_⟩
  · rw [hline, if_pos (le_refl p)]
    exact hnl
  · rw [hline, if_neg (by omega)]

/-- A newline in front of a read stays in front of it, or a new one comes there. -/
theorem Typing.newlineFrom {k : Console} (h : Typing k) (img : Image) (entered : Bool) (c : UInt8)
    {t : Int} {n : Nat} (hnl : NewlineFrom (k.lineBuf t) n) :
    NewlineFrom ((k.keyboardHandler img entered c).lineBuf t) n := by
  obtain ⟨-, -, hkept, -⟩ := h.key img entered c
  by_cases hcompleted : k.completes img entered c ∧ t = k.activeTerminal
  · obtain ⟨henter, rfl⟩ := hcompleted
    obtain ⟨p, hp, hend, hbehind⟩ := h.completed_lineBuf henter
    obtain ⟨j, hj, hlt, hold⟩ := hnl
    -- a newline behind the new line is left, and one inside it is followed by that of the line
    rcases Nat.lt_or_ge p j with hpj | hjp
    · exact ⟨j, hj, hlt, (hbehind j hpj).trans hold⟩
    · exact ⟨p, by omega, hp, hend⟩
  · rw [hkept t hcompleted]
    exact hnl

/-! ### Reads -/

theorem NewlineFrom.mono {buf : Nat → UInt8} {m n : Nat} (h : NewlineFrom buf n) (hmn : m ≤ n) :
    NewlineFrom buf m := by
  obtain ⟨j, hj, hlt, hnl⟩ := h
  exact ⟨j, by omega, hlt, hnl⟩

theorem NewlineFrom.emptied {buf : Nat → UInt8} {n : Nat} (h : NewlineFrom buf n) (hn : 1 ≤ n) :
    NewlineFrom (emptied buf) n := by
  obtain ⟨j, hj, hlt, hnl⟩ := h
  refine ⟨j, hj, hlt, ?_⟩
  rw [SrirachOS.emptied, Function.update_of_ne (by omega)]
  exact hnl

/-- A process whose read goes on. -/
theorem BoundInv.move {s : LineSystem} (h : BoundInv s) (p : Int) {ph : ReadPhase}
    (huses : ∀ a, ph.uses a → 0 ≤ a ∧ a < 3)
    (hcopy : ∀ a copied, ph = .copy a copied → NewlineFrom (s.console.lineBuf a) copied.length) :
    BoundInv { s with phase := Function.update s.phase p ph } where
  typing := h.typing
  idx := h.idx
  full := h.full
  terminals q a hq := by
    dsimp only at hq
    rcases eq_or_ne q p with rfl | hne
    · rw [Function.update_self] at hq
      exact huses a hq
    · rw [Function.update_of_ne hne] at hq
      exact h.terminals q a hq
  ahead q a copied hq := by
    dsimp only at hq
    rcases eq_or_ne q p with rfl | hne
    · rw [Function.update_self] at hq
      exact hcopy a copied hq
    · rw [Function.update_of_ne hne] at hq
      exact h.ahead q a copied hq

/-- A process that copies nothing. -/
theorem BoundInv.pass {s : LineSystem} (h : BoundInv s) (p : Int) {ph : ReadPhase}
    (huses : ∀ a, ph.uses a → 0 ≤ a ∧ a < 3) (hph : ∀ a copied, ph ≠ .copy a copied) :
    BoundInv { s with phase := Function.update s.phase p ph } :=
  h.move p huses fun a copied heq => absurd heq (hph a copied)

theorem BoundInv.clear {s : LineSystem} (h : BoundInv s) {p a : Int} {line : List UInt8}
    (hp : s.phase p = .clear a line) (hread : ReadOk s (.step p)) : BoundInv (readStep p s) := by
  unfold readStep
  rw [hp]
  dsimp only
  constructor
  · exact ⟨h.typing.active, h.typing.text⟩
  · exact h.idx
  · intro q b hq
    dsimp only at hq
    rcases eq_or_ne q p with rfl | hne
    · rw [Function.update_self] at hq
      exact hq.elim
    · rw [Function.update_of_ne hne] at hq
      exact h.terminals q b hq
  · intro t ht
    dsimp only at ht ⊢
    rcases eq_or_ne t a with rfl | hne
    · rw [Function.update_self] at ht
      exact absurd (Function.update_self ..) ht
    · rw [Function.update_of_ne hne] at ht ⊢
      exact h.full t ht
  · intro q b copied hq
    dsimp only at hq ⊢
    rcases eq_or_ne q p with rfl | hne
    · rw [Function.update_self] at hq
      cases hq
    · rw [Function.update_of_ne hne] at hq
      rcases eq_or_ne b a with rfl | hother
      · rw [Function.update_self]
        -- only the first byte is emptied, and a read that has copied it is past it
        cases copied with
        | nil => exact ((hread b line hp q hq).emptied (le_refl 1)).mono (Nat.zero_le 1)
        | cons c copied => exact (h.ahead q b _ hq).emptied (Nat.succ_pos _)
      · rw [Function.update_of_ne hother]
        exact h.ahead q b copied hq

theorem BoundInv.readStep {s : LineSystem} (h : BoundInv s) {p : Int}
    (hread : ReadOk s (.step p)) : BoundInv (readStep p s) := by
  cases hp : s.phase p with
  | idle =>
    unfold SrirachOS.readStep
    rw [hp]
    exact h
  | poll =>
    unfold SrirachOS.readStep
    rw [hp]
    dsimp only
    split
    · next hterminal => exact h.pass p (by rintro a rfl; exact hterminal) (by simp)
    · exact h.pass p (fun _ => False.elim) (by simp)
  | check a =>
    have ha := h.terminals p a (by rw [hp]; rfl)
    unfold SrirachOS.readStep
    rw [hp]
    dsimp only
    split
    · exact h.pass p (fun _ => False.elim) (by simp)
    · exact h.pass p (by rintro b rfl; exact ha) (by simp)
  | test a =>
    have ha := h.terminals p a (by rw [hp]; rfl)
    unfold SrirachOS.readStep
    rw [hp]
    dsimp only
    split
    · next hfull =>
      apply h.move p
      · rintro b rfl
        exact ha
      · rintro b copied heq
        cases heq
        exact h.full a hfull
    · exact h.pass p (fun _ => False.elim) (by simp)
  | copy a copied =>
    have ha := h.terminals p a (by rw [hp]; rfl)
    unfold SrirachOS.readStep
    rw [hp]
    dsimp only
    split
    · exact h.pass p (by rintro b rfl; exact ha) (by simp)
    · next hgo =>
      apply h.move p
      · rintro b rfl
        exact ha
      · rintro b copied' heq
        cases heq
        -- the newline is not the character that has just been copied
        obtain ⟨j, hj, hlt, hnl⟩ := h.ahead p a copied hp
        have hne : j ≠ copied.length := fun heq => hgo (by rw [← heq]; exact hnl)
        rw [List.length_append, List.length_singleton]
        exact ⟨j, by omega, hlt, hnl⟩
  | clear a line => exact h.clear hp hread

/-! ### Events -/

theorem BoundInv.step {img : Image} {s : LineSystem} {e : LineEvent} (h : BoundInv s)
    (hread : ReadOk s e) : BoundInv (lineStep img s e) := by
  cases e with
  | key c entered =>
    obtain ⟨htyping, -, hkept, hstored⟩ := h.typing.key img entered c
    refine ⟨htyping, h.typing.key_idx img entered c, h.terminals, fun t ht => ?_,
      fun p a copied hp => h.typing.newlineFrom img entered c (h.ahead p a copied hp)⟩
    change (s.console.keyboardHandler img entered c).lineBuf t 0 ≠ 0 at ht
    by_cases hcompleted : s.console.completes img entered c ∧ t = s.console.activeTerminal
    · obtain ⟨-, p, hp, hnl, -⟩ := hstored hcompleted.1
      rw [hcompleted.2]
      exact ⟨p, Nat.zero_le p, hp, hnl⟩
    · rw [hkept t hcompleted] at ht
      exact h.typing.newlineFrom img entered c (h.full t ht)
  | schedule processNum mainProcess currTask =>
    exact ⟨⟨h.typing.active, h.typing.text⟩, h.idx, h.terminals, h.full, h.ahead⟩
  | read p =>
    unfold lineStep
    dsimp only
    split
    · exact h.pass p (fun _ => False.elim) (by simp)
    · exact h
  | step p => exact h.readStep hread

/-- The accesses of a key are inside the arrays when the key is such a key. -/
theorem bounded_key_iff {img : Image} {s : LineSystem} (h : Typing s.console) (c : UInt8)
    (entered : Bool) : Bounded img s (.key c entered) ↔ KeyOk img s (.key c entered) := by
  unfold Bounded
  rw [Touching.lineStep, within_bind, Touching.keyboardHandler_within_iff h]
  exact and_iff_left (within_pure _)

/-- The accesses of a read are inside the line buffers. -/
theorem BoundInv.bounded_step {img : Image} {s : LineSystem} (h : BoundInv s) (p : Int) :
    Bounded img s (.step p) := by
  change (Touching.readStep p s).Within _
  rw [Touching.readStep, within_bind]
  refine ⟨?_, within_pure _⟩
  cases hp : s.phase p with
  | idle => exact within_pure _
  | poll => exact within_pure _
  | check a => exact within_pure _
  | test a =>
    have ha := h.terminals p a (by rw [hp]; rfl)
    exact (within_touch _).mpr ⟨ha, by omega⟩
  | copy a copied =>
    have ha := h.terminals p a (by rw [hp]; rfl)
    obtain ⟨j, hj, hlt, -⟩ := h.ahead p a copied hp
    exact (within_touch _).mpr ⟨ha, by omega⟩
  | clear a line =>
    have ha := h.terminals p a (by rw [hp]; rfl)
    exact (within_touch _).mpr ⟨ha, by omega⟩

theorem BoundInv.bounded {img : Image} {s : LineSystem} {e : LineEvent} (h : BoundInv s)
    (hkey : KeyOk img s e) : Bounded img s e := by
  cases e with
  | key c entered => exact (bounded_key_iff h.typing c entered).mpr hkey
  | schedule processNum mainProcess currTask => exact within_pure _
  | read p => exact within_pure _
  | step p => exact h.bounded_step p

/-- Lines are typed whatever happens. -/
theorem Typing.lineStep {s : LineSystem} (h : Typing s.console) (img : Image) (e : LineEvent) :
    Typing (lineStep img s e).console := by
  cases e with
  | key c entered => exact (h.key img entered c).1
  | schedule processNum mainProcess currTask => exact ⟨h.active, h.text⟩
  | read p =>
    unfold SrirachOS.lineStep
    dsimp only
    split <;> exact h
  | step p =>
    change Typing (readStep p s).console
    unfold readStep
    dsimp only
    cases s.phase p with
    | idle => exact h
    | clear a line => exact ⟨h.active, h.text⟩
    | copy a copied =>
      dsimp only
      split <;> exact h
    | poll | check a | test a =>
      dsimp only
      split <;> exact h

/-- **The bounds of the keyboard**: along a run whose keys are in the table, whose searches end in
the buffer and whose reads leave each other a newline, every access is inside its array, and the
indices stay in theirs; and no other keys keep a run inside the arrays. -/
theorem key_bounds (img : Image) (k : Console) (es : List LineEvent) :
    (Along (lineStep img) (fun s e => KeyOk img s e ∧ ReadOk s e) (.start k) es →
      Along (lineStep img) (Bounded img) (.start k) es ∧
        ∀ pre, pre <+: es →
          let s := run (lineStep img) (.start k) pre
          s.console.keyboardBufIdx ≤ 127 ∧ ∀ t, s.console.saveIdx t ≤ 127) ∧
    (Along (lineStep img) (Bounded img) (.start k) es →
      Along (lineStep img) (KeyOk img) (.start k) es) := by
  refine ⟨fun hok => ⟨?_, ?_⟩, fun hbounded => ?_⟩
  · exact along_of_invariant (fun s e h he => h.step he.2) (fun s e h he => h.bounded he.1)
      (boundInv_start k) hok
  · rintro pre ⟨rest, rfl⟩
    have hinv : BoundInv (run (lineStep img) (.start k) pre) :=
      invariant_run (fun s e h he => h.step he.2) (boundInv_start k) ((along_append ..).mp hok).1
    exact ⟨hinv.idx, fun t => (hinv.typing.text t).1⟩
  · refine along_of_invariant (I := fun s : LineSystem => Typing s.console)
      (fun s e h _ => h.lineStep img e) (fun s e h he => ?_) (lineInv_start k).typing hbounded
    -- the accesses of a read say nothing about the keys
    cases e with
    | key c entered => exact (bounded_key_iff h c entered).mp he
    | schedule processNum mainProcess currTask => trivial
    | read p => trivial
    | step p => trivial

/-- F12 has no entry in `pressed_flags`. -/
theorem function_key_outside :
    ¬ Along (lineStep sampleImage) (Bounded sampleImage) (.start sampleConsole) [.key 0x58 false] := by
  decide +kernel

end SrirachOS
