import SrirachOS.Console.Editor

/-!
# The Line Discipline

`keyboard_handler` against the line editor: after any sequence of keys each terminal's `save_buf`
holds what its own editor holds, and its line buffer the last line that the editor completed.

- `Types`: the variables of the keyboard, as a keyboard with three editors,
- `Types.step`: each key keeps it,
- `line_discipline`: hence the lines that Enter stores.
-/

namespace SrirachOS

open Foundation

/-! ## Scancodes -/

/-- The bytes that the keyboard sends for keys in the table other than Ctrl, and prefix bytes. -/
def InScope (c : UInt8) : Prop :=
  (c ≤ 0x55 ∧ c ≠ 0x1D) ∨ (0x80 ≤ c ∧ c ≤ 0xD5 ∧ c ≠ 0x9D) ∨ 0xD8 < c

instance (c : UInt8) : Decidable (InScope c) := inferInstanceAs (Decidable (_ ∨ _))

/-! ## The relation -/

/-- The variables of the keyboard hold the modifiers `m` and the editors `E`. -/
structure Types (k : Console) (m : Modifiers) (E : Int → Editor) : Prop where
  terminal : 0 ≤ m.terminal ∧ m.terminal < 3
  active : k.activeTerminal = m.terminal
  left : k.pressedFlags 0x2A ≠ 0 ↔ m.left = true
  right : k.pressedFlags 0x36 ≠ 0 ↔ m.right = true
  alt : k.pressedFlags 0x38 ≠ 0 ↔ m.alt = true
  ctl : k.pressedFlags 0x1D = 0
  caps : k.capsLockCheck = if m.caps then 1 else -1
  room : ∀ t, 0 ≤ t → t < 3 → k.saveIdx t ≤ 127
  text : ∀ t, 0 ≤ t → t < 3 → bufText (k.saveBuf t) (k.saveIdx t) = (E t).text
  line : ∀ t, 0 ≤ t → t < 3 → ∀ l, (E t).line = some l → bufText (k.lineBuf t) l.length = l

/-! ## Flags -/

/-- What a byte does to a key: `i` is sent when it is pressed and `r` when it is released. -/
def heldAfter (i r c : UInt8) (b : Bool) : Bool :=
  if c = i then true else if c = r then false else b

/-- The flag of a key, when some key is pressed. -/
theorem flag_press {flags : Nat → UInt8} {i r c : UInt8} {b : Bool} (hr : 0x80 ≤ r)
    (h : flags i.toNat ≠ 0 ↔ b = true) (hc : c ≤ 0x55) :
    Function.update flags c.toNat 1 i.toNat ≠ 0 ↔ heldAfter i r c b = true := by
  have hne : c ≠ r := by
    rintro rfl
    exact absurd (UInt8.le_trans hr hc) (by decide : ¬ (0x80 : UInt8) ≤ 0x55)
  unfold heldAfter
  rw [if_neg hne]
  by_cases hci : c = i
  · rw [hci, Function.update_self, if_pos rfl]
    decide
  · have hnat : i.toNat ≠ c.toNat := fun heq => hci (UInt8.toNat_inj.mp heq.symm)
    rw [Function.update_of_ne hnat, if_neg hci]
    exact h

/-- The flag of a key, when some key is released. -/
theorem flag_release {flags : Nat → UInt8} {i r c : UInt8} {b : Bool} (hi : i ≤ 0x55)
    (h : flags i.toNat ≠ 0 ↔ b = true) (hc : 0x80 ≤ c) (hri : c &&& 0x7F = i ↔ c = r) :
    Function.update flags (c &&& 0x7F).toNat 0 i.toNat ≠ 0 ↔ heldAfter i r c b = true := by
  have hne : c ≠ i := by
    rintro rfl
    exact absurd (UInt8.le_trans hc hi) (by decide : ¬ (0x80 : UInt8) ≤ 0x55)
  unfold heldAfter
  rw [if_neg hne]
  by_cases hcr : c = r
  · rw [hri.mpr hcr, Function.update_self, if_pos hcr]
    decide
  · have hnat : i.toNat ≠ (c &&& 0x7F).toNat :=
      fun heq => hcr (hri.mp (UInt8.toNat_inj.mp heq.symm))
    rw [Function.update_of_ne hnat, if_neg hcr]
    exact h

/-- A byte that is no key. -/
theorem heldAfter_not_key {i r c : UInt8} (b : Bool) (hi : i ≤ 0xD8) (hr : r ≤ 0xD8)
    (hc : 0xD8 < c) : heldAfter i r c b = b := by
  have hci : c ≠ i := by
    rintro rfl
    exact UInt8.not_lt.mpr hi hc
  have hcr : c ≠ r := by
    rintro rfl
    exact UInt8.not_lt.mpr hr hc
  unfold heldAfter
  rw [if_neg hci, if_neg hcr]

/-- The flags after a byte: those of the modifier keys are right, and Ctrl is up. -/
structure FlagsAfter (c : UInt8) (flags flags' : Nat → UInt8) : Prop where
  ctl : flags' 0x1D = 0
  held : ∀ (i r : UInt8) (b : Bool), (i, r) ∈ [((0x2A : UInt8), (0xAA : UInt8)), (0x36, 0xB6),
    (0x38, 0xB8)] → (flags i.toNat ≠ 0 ↔ b = true) →
    (flags' i.toNat ≠ 0 ↔ heldAfter i r c b = true)

theorem flagsAfter_press {flags : Nat → UInt8} {c : UInt8} (hctl : flags 0x1D = 0) (hc : c ≤ 0x55)
    (hne : c ≠ 0x1D) : FlagsAfter c flags (Function.update flags c.toNat 1) where
  ctl := by
    have hnat : 0x1D ≠ c.toNat := fun heq => hne (UInt8.toNat_inj.mp heq.symm)
    rw [Function.update_of_ne hnat, hctl]
  held i r b hir h := by
    apply flag_press _ h hc
    simp only [List.mem_cons, Prod.mk.injEq, List.not_mem_nil, or_false] at hir
    rcases hir with ⟨-, rfl⟩ | ⟨-, rfl⟩ | ⟨-, rfl⟩ <;> decide

theorem flagsAfter_release {flags : Nat → UInt8} {c : UInt8} (hctl : flags 0x1D = 0) (hc : 0x80 ≤ c)
    (hc' : c ≤ 0xD5) : FlagsAfter c flags (Function.update flags (c &&& 0x7F).toNat 0) where
  ctl := by
    rw [Function.update_apply]
    split
    · rfl
    · exact hctl
  held i r b hir h := by
    simp only [List.mem_cons, Prod.mk.injEq, List.not_mem_nil, or_false] at hir
    have hcode : ∀ c : UInt8, 0x80 ≤ c → c ≤ 0xD5 → (c &&& 0x7F = 0x2A ↔ c = 0xAA) ∧
        (c &&& 0x7F = 0x36 ↔ c = 0xB6) ∧ (c &&& 0x7F = 0x38 ↔ c = 0xB8) := by
      apply forall_byte
      decide +kernel
    obtain ⟨h1, h2, h3⟩ := hcode c hc hc'
    rcases hir with ⟨rfl, rfl⟩ | ⟨rfl, rfl⟩ | ⟨rfl, rfl⟩
    · exact flag_release (by decide) h hc h1
    · exact flag_release (by decide) h hc h2
    · exact flag_release (by decide) h hc h3

theorem flagsAfter_prefix {flags : Nat → UInt8} {c : UInt8} (hctl : flags 0x1D = 0)
    (hc : 0xD8 < c) : FlagsAfter c flags flags where
  ctl := hctl
  held i r b hir h := by
    simp only [List.mem_cons, Prod.mk.injEq, List.not_mem_nil, or_false] at hir
    rw [heldAfter_not_key b _ _ hc]
    · exact h
    · rcases hir with ⟨rfl, -⟩ | ⟨rfl, -⟩ | ⟨rfl, -⟩ <;> decide
    · rcases hir with ⟨-, rfl⟩ | ⟨-, rfl⟩ | ⟨-, rfl⟩ <;> decide

/-! ## One key -/

/-- What a key leaves behind, when it changes at most the line of the displayed terminal. -/
theorem Types.next {k k' : Console} {m : Modifiers} {E : Int → Editor} (h : Types k m E) {c : UInt8}
    {ed : Editor}
    (hflags : FlagsAfter c k.pressedFlags k'.pressedFlags)
    (hactive : k'.activeTerminal = (m.step c).terminal)
    (hcaps : k'.capsLockCheck = if c = 0x3A then k.capsLockCheck * (-1) else k.capsLockCheck)
    (hterminal : 0 ≤ (m.step c).terminal ∧ (m.step c).terminal < 3)
    (hother : ∀ t, t ≠ m.terminal → k'.saveBuf t = k.saveBuf t ∧ k'.saveIdx t = k.saveIdx t ∧
      k'.lineBuf t = k.lineBuf t)
    (hroom : k'.saveIdx m.terminal ≤ 127)
    (htext : bufText (k'.saveBuf m.terminal) (k'.saveIdx m.terminal) = ed.text)
    (hline : ∀ l, ed.line = some l → bufText (k'.lineBuf m.terminal) l.length = l) :
    Types k' (m.step c) (Function.update E m.terminal ed) where
  terminal := hterminal
  active := hactive
  left := hflags.held 0x2A 0xAA m.left (by simp) h.left
  right := hflags.held 0x36 0xB6 m.right (by simp) h.right
  alt := hflags.held 0x38 0xB8 m.alt (by simp) h.alt
  ctl := hflags.ctl
  caps := by
    rw [hcaps, h.caps]
    unfold Modifiers.step
    dsimp only
    split <;> cases m.caps <;> simp
  room t h0 h3 := by
    rcases eq_or_ne t m.terminal with rfl | hne
    · exact hroom
    · rw [(hother t hne).2.1]
      exact h.room t h0 h3
  text t h0 h3 := by
    rcases eq_or_ne t m.terminal with rfl | hne
    · rw [Function.update_self]
      exact htext
    · rw [(hother t hne).1, (hother t hne).2.1, Function.update_of_ne hne]
      exact h.text t h0 h3
  line t h0 h3 l hl := by
    rcases eq_or_ne t m.terminal with rfl | hne
    · rw [Function.update_self] at hl
      exact hline l hl
    · rw [Function.update_of_ne hne] at hl
      rw [(hother t hne).2.2]
      exact h.line t h0 h3 l hl

/-! The ways in which the handler goes on. -/

section Handler

variable {img : Image} {entered : Bool} {c : UInt8} {k k' : Console}

theorem keyboardHandler_of_none (h : k.loadIdx.getChar img entered c = (none, k')) :
    k.keyboardHandler img entered c = k' := by
  unfold Console.keyboardHandler
  rw [h]

theorem keyboardHandler_of_some {test : UInt8}
    (h : k.loadIdx.getChar img entered c = (some test, k')) :
    k.keyboardHandler img entered c = k'.handleChar test := by
  unfold Console.keyboardHandler
  rw [h]

/-- A key that leaves the line of the displayed terminal as it is, apart from the index. -/
theorem Types.unprinted {m : Modifiers} {E : Int → Editor} (h : Types k m E) (ed : Editor)
    (hchar : k.loadIdx.getChar img entered c = (some dontPrint, k') ∨
      k.loadIdx.getChar img entered c = (none, k') ∧ k'.keyboardBufIdx = k.saveIdx m.terminal)
    (hflags : FlagsAfter c k.pressedFlags k'.pressedFlags)
    (hactive : k'.activeTerminal = (m.step c).terminal)
    (hcaps : k'.capsLockCheck = if c = 0x3A then k.capsLockCheck * (-1) else k.capsLockCheck)
    (hterminal : 0 ≤ (m.step c).terminal ∧ (m.step c).terminal < 3)
    (hhandler : k'.handlerTerminal = m.terminal)
    (hbuf : ∀ t, t ≠ m.terminal → k'.saveBuf t = k.saveBuf t) (hidx : k'.saveIdx = k.saveIdx)
    (hlines : k'.lineBuf = k.lineBuf) (hroom : k'.keyboardBufIdx ≤ 127)
    (htext : bufText (k'.saveBuf m.terminal) k'.keyboardBufIdx = ed.text)
    (hline : ed.line = (E m.terminal).line) :
    Types (k.keyboardHandler img entered c) (m.step c) (Function.update E m.terminal ed) := by
  -- with or without the last store, the index of the terminal is the handler's
  have hresult : ∃ k'' : Console, k.keyboardHandler img entered c = k'' ∧
      k''.pressedFlags = k'.pressedFlags ∧ k''.activeTerminal = k'.activeTerminal ∧
      k''.capsLockCheck = k'.capsLockCheck ∧ k''.saveBuf = k'.saveBuf ∧
      k''.lineBuf = k'.lineBuf ∧
      k''.saveIdx = Function.update k.saveIdx m.terminal k'.keyboardBufIdx := by
    rcases hchar with hchar | ⟨hchar, hsame⟩
    · refine ⟨k'.storeIdx, ?_, rfl, rfl, rfl, rfl, rfl, ?_⟩
      · rw [keyboardHandler_of_some hchar]
        exact if_pos rfl
      · unfold Console.storeIdx
        dsimp only
        rw [hhandler, hidx]
    · refine ⟨k', keyboardHandler_of_none hchar, rfl, rfl, rfl, rfl, rfl, ?_⟩
      rw [hidx, hsame, Function.update_eq_self]
  obtain ⟨k'', heq, hf, ha, hc, hb, hl, hi⟩ := hresult
  rw [heq]
  apply h.next
  · rw [hf]
    exact hflags
  · rw [ha, hactive]
  · rw [hc, hcaps]
  · exact hterminal
  · intro t ht
    rw [hb, hi, hl, hlines, hbuf t ht, Function.update_of_ne ht]
    exact ⟨rfl, rfl, rfl⟩
  · rw [hi, Function.update_self]
    exact hroom
  · rw [hb, hi, Function.update_self]
    exact htext
  · intro l hl'
    rw [hl, hlines]
    rw [hline] at hl'
    exact h.line _ h.terminal.1 h.terminal.2 l hl'

/-! ## Keys that leave the line alone -/

/-- `getChar` is done with the key, and the line of no terminal has changed. -/
theorem Types.step_kept {m : Modifiers} {E : Int → Editor} (h : Types k m E) (k' : Console)
    (hchar : k.loadIdx.getChar img entered c = (some dontPrint, k') ∨
      k.loadIdx.getChar img entered c = (none, k'))
    (hflags : FlagsAfter c k.pressedFlags k'.pressedFlags)
    (hactive : k'.activeTerminal = (m.step c).terminal)
    (hcaps : k'.capsLockCheck = if c = 0x3A then k.capsLockCheck * (-1) else k.capsLockCheck)
    (hterminal : 0 ≤ (m.step c).terminal ∧ (m.step c).terminal < 3)
    (hkept : k'.handlerTerminal = k.activeTerminal ∧ k'.keyboardBufIdx = k.saveIdx k.activeTerminal ∧
      k'.saveBuf = k.saveBuf ∧ k'.saveIdx = k.saveIdx ∧ k'.lineBuf = k.lineBuf) :
    Types (k.keyboardHandler img entered c) (m.step c) E := by
  obtain ⟨hhandler, hidx, hbuf, hidxs, hlines⟩ := hkept
  rw [h.active] at hhandler hidx
  have hsame := h.unprinted (E m.terminal) (hchar.imp_right fun heq => ⟨heq, hidx⟩) hflags
    hactive hcaps hterminal hhandler (fun t _ => by rw [hbuf]) hidxs hlines
    (by rw [hidx]; exact h.room _ h.terminal.1 h.terminal.2)
    (by rw [hbuf, hidx]; exact h.text _ h.terminal.1 h.terminal.2) rfl
  rw [Function.update_eq_self] at hsame
  exact hsame

/-- The terminal stays displayed. -/
theorem Modifiers.step_terminal {m : Modifiers} (hnot : m.switches c = false) :
    (m.step c).terminal = m.terminal := by
  unfold Modifiers.step
  dsimp only
  rw [hnot]
  rfl

theorem switches_eq_false {m : Modifiers} (h : ¬ (0x3B ≤ c ∧ c < 0x3E)) : m.switches c = false := by
  unfold Modifiers.switches
  by_contra hsome
  simp only [Bool.not_eq_false, Bool.and_eq_true, decide_eq_true_eq] at hsome
  exact h ⟨hsome.1.2, hsome.2⟩

theorem Types.step_release {m : Modifiers} {E : Int → Editor} (h : Types k m E) (hc : 0x80 ≤ c)
    (hc' : c ≤ 0xD5) : Types (k.keyboardHandler img entered c) (m.step c) E := by
  have hcode : ∀ c : UInt8, 0x80 ≤ c → c ≤ 0xD5 →
      ¬ c ≤ 0x58 ∧ c ≤ 0xD8 ∧ c ≠ 0x3A ∧ ¬ (0x3B ≤ c ∧ c < 0x3E) := by
    apply forall_byte
    decide +kernel
  obtain ⟨hpress, hrelease, hcaps, hfunction⟩ := hcode c hc hc'
  have hterminal := Modifiers.step_terminal (switches_eq_false (m := m) hfunction)
  apply h.step_kept { k.loadIdx with
    pressedFlags := Function.update k.pressedFlags (c &&& 0x7F).toNat 0 }
  · left
    unfold Console.getChar
    rw [if_neg hpress, if_pos hrelease]
    rfl
  · exact flagsAfter_release h.ctl hc hc'
  · rw [hterminal]
    exact h.active
  · rw [if_neg hcaps]
    rfl
  · rw [hterminal]
    exact h.terminal
  · exact ⟨rfl, rfl, rfl, rfl, rfl⟩

theorem Types.step_prefix {m : Modifiers} {E : Int → Editor} (h : Types k m E) (hc : 0xD8 < c) :
    Types (k.keyboardHandler img entered c) (m.step c) E := by
  have hcode : ∀ c : UInt8, 0xD8 < c →
      ¬ c ≤ 0x58 ∧ ¬ c ≤ 0xD8 ∧ c ≠ 0x3A ∧ ¬ (0x3B ≤ c ∧ c < 0x3E) := by
    apply forall_byte
    decide +kernel
  obtain ⟨hpress, hrelease, hcaps, hfunction⟩ := hcode c hc
  have hterminal := Modifiers.step_terminal (switches_eq_false (m := m) hfunction)
  apply h.step_kept k.loadIdx
  · left
    unfold Console.getChar
    rw [if_neg hpress, if_neg hrelease]
  · exact flagsAfter_prefix h.ctl hc
  · rw [hterminal]
    exact h.active
  · rw [if_neg hcaps]
    rfl
  · rw [hterminal]
    exact h.terminal
  · exact ⟨rfl, rfl, rfl, rfl, rfl⟩

/-! ## Keys that are pressed -/

/-- The console when `getChar` looks at a key that is pressed. -/
theorem getChar_press (hc : c ≤ 0x55) :
    k.loadIdx.getChar img entered c = (k.loadIdx.raiseFlag c).pressed img entered c := by
  have hle : ∀ c : UInt8, c ≤ 0x55 → c ≤ 0x58 := by
    apply forall_byte
    decide +kernel
  unfold Console.getChar
  rw [if_pos (hle c hc)]

/-- Ctrl is up, so the first things that `getChar` looks for are CapsLock and Alt. -/
theorem pressed_of_ctl (hctl : k.pressedFlags 0x1D = 0) (hcaps : c ≠ 0x3A) :
    k.pressed img entered c =
      if k.pressedFlags 0x38 ≠ 0 ∧ 0x3B ≤ c ∧ c < 0x3E then
        (if k.activeTerminal ≠ ((c.toNat - 0x3B : Nat) : Int) ∧
            k.currTask ((c.toNat - 0x3B : Nat) : Int) = -1 ∧ entered then none else some dontPrint,
          { k with toDisplay := k.toDisplay.switchTerminal ((c.toNat - 0x3B : Nat) : Int) entered })
      else if c = 0x4B ∨ c = 0x4D then (some dontPrint, k)
      else if c = 0x48 ∨ c = 0x50 then (some dontPrint, k)
      else if c = 0x0E ∧ 0 < k.keyboardBufIdx then
        (some dontPrint, { k with
          toDisplay := k.toDisplay.backspace
          keyboardBufIdx := k.keyboardBufIdx - 1
          numChars := k.numChars - 1 })
      else k.lookup img c := by
  unfold Console.pressed
  rw [if_neg hcaps, if_neg (fun h => h.1 hctl), if_neg (fun h => h.1 hctl),
    if_neg (fun h => h.1 hctl)]

theorem Types.raised {m : Modifiers} {E : Int → Editor} (h : Types k m E) (hc : c ≤ 0x55)
    (hne : c ≠ 0x1D) : FlagsAfter c k.pressedFlags (k.loadIdx.raiseFlag c).pressedFlags :=
  flagsAfter_press h.ctl hc hne

theorem Types.step_caps {m : Modifiers} {E : Int → Editor} (h : Types k m E) :
    Types (k.keyboardHandler img entered 0x3A) (m.step 0x3A) E := by
  have hterminal := Modifiers.step_terminal (switches_eq_false (c := 0x3A) (m := m) (by decide))
  apply h.step_kept { k.loadIdx.raiseFlag 0x3A with
    capsLockCheck := k.capsLockCheck * (-1) }
  · left
    rw [getChar_press (by decide)]
    exact if_pos rfl
  · exact h.raised (by decide) (by decide)
  · rw [hterminal]
    exact h.active
  · rw [if_pos rfl]
  · rw [hterminal]
    exact h.terminal
  · exact ⟨rfl, rfl, rfl, rfl, rfl⟩

/-- Alt is held when its flag says so, while another key is pressed. -/
theorem Types.alt_raised {m : Modifiers} {E : Int → Editor} (h : Types k m E) (hne : c ≠ 0x38) :
    (k.loadIdx.raiseFlag c).pressedFlags 0x38 ≠ 0 ↔ m.alt = true := by
  have hnat : 0x38 ≠ c.toNat := fun heq => hne (UInt8.toNat_inj.mp heq.symm)
  change Function.update k.pressedFlags c.toNat 1 0x38 ≠ 0 ↔ _
  rw [Function.update_of_ne hnat]
  exact h.alt

theorem Types.step_switch {m : Modifiers} {E : Int → Editor} (h : Types k m E)
    (hswitch : m.switches c = true) : Types (k.keyboardHandler img entered c) (m.step c) E := by
  have hkey : m.alt = true ∧ 0x3B ≤ c ∧ c < 0x3E := by
    unfold Modifiers.switches at hswitch
    simp only [Bool.and_eq_true, decide_eq_true_eq] at hswitch
    exact ⟨hswitch.1.1, hswitch.1.2, hswitch.2⟩
  have hcode : ∀ c : UInt8, 0x3B ≤ c ∧ c < 0x3E →
      c ≤ 0x55 ∧ c ≠ 0x1D ∧ c ≠ 0x38 ∧ c ≠ 0x3A ∧ c.toNat - 0x3B < 3 := by
    apply forall_byte
    decide +kernel
  obtain ⟨hle, hctl, halt, hcaps, hlt⟩ := hcode c hkey.2
  have hflags := h.raised hle hctl
  have hterminal : (m.step c).terminal = ((c.toNat - 0x3B : Nat) : Int) := by
    unfold Modifiers.step
    dsimp only
    rw [hswitch]
    rfl
  apply h.step_kept { k.loadIdx.raiseFlag c with
    toDisplay := k.toDisplay.switchTerminal ((c.toNat - 0x3B : Nat) : Int) entered }
  · rw [getChar_press hle, pressed_of_ctl hflags.ctl hcaps,
      if_pos ⟨(h.alt_raised halt).mpr hkey.1, hkey.2⟩]
    split
    · exact .inr rfl
    · exact .inl rfl
  · exact hflags
  · rw [hterminal]
    exact Display.switchTerminal_activeTerminal ..
  · rw [if_neg hcaps]
    rfl
  · rw [hterminal]
    omega
  · exact ⟨rfl, rfl, rfl, rfl, rfl⟩

/-- What `getChar` does with a key that neither toggles CapsLock nor switches the terminal. -/
theorem Types.getChar_plain {m : Modifiers} {E : Int → Editor} (h : Types k m E) (img : Image)
    (entered : Bool) (hc : c ≤ 0x55)
    (hne : c ≠ 0x1D) (hcaps : c ≠ 0x3A) (hswitch : m.switches c = false)
    (harrow : ¬ (c = 0x4B ∨ c = 0x4D ∨ c = 0x48 ∨ c = 0x50)) :
    k.loadIdx.getChar img entered c =
      if c = 0x0E ∧ 0 < k.saveIdx m.terminal then
        (some dontPrint, { k.loadIdx.raiseFlag c with
          toDisplay := k.toDisplay.backspace
          keyboardBufIdx := k.saveIdx m.terminal - 1
          numChars := k.numChars - 1 })
      else (k.loadIdx.raiseFlag c).lookup img c := by
  have hflags := h.raised hc hne
  -- Alt with a function key is the switch that has been excluded
  have hfunction : ¬ ((k.loadIdx.raiseFlag c).pressedFlags 0x38 ≠ 0 ∧ 0x3B ≤ c ∧ c < 0x3E) := by
    rintro ⟨halt, hlo, hhi⟩
    have hne' : c ≠ 0x38 := by
      rintro rfl
      exact absurd hlo (by decide)
    have hsome : m.switches c = true := by
      unfold Modifiers.switches
      rw [(h.alt_raised hne').mp halt, decide_eq_true hlo, decide_eq_true hhi]
      rfl
    rw [hswitch] at hsome
    cases hsome
  have hidx : (k.loadIdx.raiseFlag c).keyboardBufIdx = k.saveIdx m.terminal := by
    rw [← h.active]
    rfl
  rw [getChar_press hc, pressed_of_ctl hflags.ctl hcaps, if_neg hfunction,
    if_neg (fun h => harrow (h.imp_right .inl)), if_neg (fun h => harrow (.inr (.inr h))), hidx]
  rfl

/-- The place in the table: with shift it is in the second half. -/
theorem Types.shiftCode_raised {m : Modifiers} {E : Int → Editor} (h : Types k m E)
    (hleft : c ≠ 0x2A) (hright : c ≠ 0x36) :
    (k.loadIdx.raiseFlag c).shiftCode c = if m.shifted then c + 86 else c := by
  have hl : 0x2A ≠ c.toNat := fun heq => hleft (UInt8.toNat_inj.mp heq.symm)
  have hr : 0x36 ≠ c.toNat := fun heq => hright (UInt8.toNat_inj.mp heq.symm)
  have hheld : (k.loadIdx.raiseFlag c).shiftHeld ↔ (m.left || m.right) = true := by
    change Function.update k.pressedFlags c.toNat 1 0x2A ≠ 0 ∨
      Function.update k.pressedFlags c.toNat 1 0x36 ≠ 0 ↔ _
    rw [Function.update_of_ne hl, Function.update_of_ne hr, h.left, h.right, Bool.or_eq_true]
  have hcaps : (k.loadIdx.raiseFlag c).capsLockCheck = if m.caps then 1 else -1 := h.caps
  unfold Console.shiftCode Modifiers.shifted
  rw [hcaps, if_congr hheld rfl rfl]
  cases m.caps <;> cases (m.left || m.right) <;> simp

theorem shiftCode_eq_or (c : UInt8) (k : Console) : k.shiftCode c = c + 86 ∨ k.shiftCode c = c := by
  unfold Console.shiftCode
  split_ifs <;> simp

/-- No key is Tab in the second half of the table. -/
theorem shifted_ne_tab {c : UInt8} (hc : c ≤ 0x55) : c + 86 ≠ 0x0F := by
  have hcode : ∀ c : UInt8, c ≤ 0x55 → c + 86 ≠ 0x0F := by
    apply forall_byte
    decide +kernel
  exact hcode c hc

/-- What the table says, and whether the key completes the last word. -/
theorem Types.lookup_raised {m : Modifiers} {E : Int → Editor} (h : Types k m E) (hc : c ≤ 0x55) :
    (k.loadIdx.raiseFlag c).lookup img c =
      (some (if keyCap m.shifted c = 0 then dontPrint else keyCap m.shifted c),
        if c = 0x0F ∧ (!m.shifted) = true then (k.loadIdx.raiseFlag c).autocomplete img
        else k.loadIdx.raiseFlag c) := by
  -- a shift key itself may or may not count as held, but nothing is written on it
  have hshift : ∀ c : UInt8, c = 0x2A ∨ c = 0x36 → (c + 86 ≠ 0x0F ∧ c ≠ 0x0F) ∧
      scancode.getD (c + 86).toNat 0 = 0 ∧ scancode.getD c.toNat 0 = 0 := by
    apply forall_byte
    decide +kernel
  unfold Console.lookup
  by_cases hkey : c = 0x2A ∨ c = 0x36
  · obtain ⟨⟨htab1, htab2⟩, hcap1, hcap2⟩ := hshift c hkey
    have hcap : keyCap m.shifted c = 0 := by
      unfold keyCap
      split
      · exact hcap1
      · exact hcap2
    have hother : ¬ (c = 0x0F ∧ (!m.shifted) = true) := fun h => htab2 h.1
    dsimp only
    rw [hcap, if_neg hother]
    rcases shiftCode_eq_or c (k.loadIdx.raiseFlag c) with hcode | hcode
    · rw [hcode, hcap1, if_neg htab1]
    · rw [hcode, hcap2, if_neg htab2]
  · rw [h.shiftCode_raised (fun heq => hkey (.inl heq)) (fun heq => hkey (.inr heq))]
    unfold keyCap
    cases hshifted : m.shifted with
    | false => simp
    | true => simp [shifted_ne_tab hc]

/-- A key that does nothing but raise its flag. -/
theorem Types.step_quiet {m : Modifiers} {E : Int → Editor} (h : Types k m E) (hc : c ≤ 0x55)
    (hne : c ≠ 0x1D) (hcaps : c ≠ 0x3A) (hswitch : m.switches c = false)
    (hchar : k.loadIdx.getChar img entered c = (some dontPrint, k.loadIdx.raiseFlag c)) :
    Types (k.keyboardHandler img entered c) (m.step c) E := by
  apply h.step_kept _ (.inl hchar)
  · exact h.raised hc hne
  · rw [Modifiers.step_terminal hswitch]
    exact h.active
  · rw [if_neg hcaps]
    rfl
  · rw [Modifiers.step_terminal hswitch]
    exact h.terminal
  · exact ⟨rfl, rfl, rfl, rfl, rfl⟩

theorem Types.step_arrow {m : Modifiers} {E : Int → Editor} (h : Types k m E)
    (harrow : c = 0x4B ∨ c = 0x4D ∨ c = 0x48 ∨ c = 0x50) :
    Types (k.keyboardHandler img entered c) (m.step c) E := by
  have hcode : ∀ c : UInt8, c = 0x4B ∨ c = 0x4D ∨ c = 0x48 ∨ c = 0x50 →
      c ≤ 0x55 ∧ c ≠ 0x1D ∧ c ≠ 0x3A ∧ ¬ (0x3B ≤ c ∧ c < 0x3E) := by
    apply forall_byte
    decide +kernel
  obtain ⟨hle, hctl, hcaps, hfunction⟩ := hcode c harrow
  apply h.step_quiet hle hctl hcaps (switches_eq_false hfunction)
  rw [getChar_press hle, pressed_of_ctl (h.raised hle hctl).ctl hcaps,
    if_neg (fun h => hfunction h.2)]
  by_cases hhorizontal : c = 0x4B ∨ c = 0x4D
  · rw [if_pos hhorizontal]
  · rw [if_neg hhorizontal, if_pos ((or_assoc.mpr harrow).resolve_left hhorizontal)]

/-! ## Editing keys -/

theorem dropLast_bufText (buf : Nat → UInt8) (n : Nat) :
    (bufText buf n).dropLast = bufText buf (n - 1) := by
  cases n with
  | zero => rfl
  | succ n => rw [bufText_succ, List.dropLast_concat, Nat.add_sub_cancel]

theorem Types.step_erase {m : Modifiers} {E : Int → Editor} (h : Types k m E) :
    Types (k.keyboardHandler img entered 0x0E) (m.step 0x0E)
      (stepAt (Editor.step img) E (m.terminal, .erase)) := by
  have hswitch : m.switches 0x0E = false := switches_eq_false (by decide)
  have hplain := h.getChar_plain img entered (c := 0x0E) (by decide) (by decide)
    (by decide) hswitch (by decide)
  have htext := h.text _ h.terminal.1 h.terminal.2
  have hroom := h.room _ h.terminal.1 h.terminal.2
  -- with an empty line Backspace is a key without a character
  by_cases hidx : 0 < k.saveIdx m.terminal
  · rw [if_pos ⟨rfl, hidx⟩] at hplain
    apply h.unprinted _ (.inl hplain)
    · exact h.raised (by decide) (by decide)
    · rw [Modifiers.step_terminal hswitch]
      exact (Display.backspace_activeTerminal _).trans h.active
    · rfl
    · rw [Modifiers.step_terminal hswitch]
      exact h.terminal
    · exact h.active
    · intro t _
      rfl
    · rfl
    · rfl
    · change k.saveIdx m.terminal - 1 ≤ 127
      omega
    · change bufText (k.saveBuf m.terminal) (k.saveIdx m.terminal - 1) = (E m.terminal).text.dropLast
      rw [← htext, dropLast_bufText]
    · rfl
  · -- there is nothing to erase, and nothing is written on the key
    have hcap : ∀ b, keyCap b 0x0E = 0 := by decide
    have hsame : stepAt (Editor.step img) E (m.terminal, .erase) = E := by
      have hempty : (E m.terminal).text = [] := by
        rw [← htext, ← List.length_eq_zero_iff, length_bufText]
        omega
      have hself : (E m.terminal).step img .erase = E m.terminal := by
        unfold Editor.step
        rw [hempty, List.dropLast_nil, ← hempty]
      unfold stepAt
      rw [hself, Function.update_eq_self]
    rw [hsame]
    apply h.step_quiet (by decide) (by decide) (by decide) hswitch
    rw [hplain, if_neg (fun h => hidx h.2), h.lookup_raised (by decide), hcap, if_pos rfl]
    rfl

theorem Types.step_complete {m : Modifiers} {E : Int → Editor} (h : Types k m E)
    (hshift : (!m.shifted) = true) :
    Types (k.keyboardHandler img entered 0x0F) (m.step 0x0F)
      (stepAt (Editor.step img) E (m.terminal, .complete)) := by
  have hswitch : m.switches 0x0F = false := switches_eq_false (by decide)
  have hcap : ∀ b, keyCap b 0x0F = 0 := by decide
  have hroom := h.room _ h.terminal.1 h.terminal.2
  obtain ⟨htext, hroom'⟩ := fsSearch_completes img (k.saveBuf m.terminal) hroom
  rw [h.text _ h.terminal.1 h.terminal.2] at htext
  have hchar : k.loadIdx.getChar img entered 0x0F =
      (some dontPrint, (k.loadIdx.raiseFlag 0x0F).autocomplete img) := by
    rw [h.getChar_plain img entered (by decide) (by decide) (by decide) hswitch (by decide),
      if_neg (fun h => absurd h.1 (by decide)), h.lookup_raised (by decide), hcap, if_pos rfl,
      if_pos ⟨rfl, hshift⟩]
  -- the search works on the buffer of the displayed terminal
  have hsearch : fsSearch img ((k.loadIdx.raiseFlag 0x0F).saveBuf
      (k.loadIdx.raiseFlag 0x0F).handlerTerminal) (k.loadIdx.raiseFlag 0x0F).keyboardBufIdx =
        fsSearch img (k.saveBuf m.terminal) (k.saveIdx m.terminal) := by
    rw [← h.active]
    rfl
  -- Tab appends to the text, and leaves the other terminals alone
  apply h.unprinted _ (.inl hchar)
  · exact h.raised (by decide) (by decide)
  · rw [Modifiers.step_terminal hswitch]
    exact (printf_activeTerminal _ _).trans h.active
  · rfl
  · rw [Modifiers.step_terminal hswitch]
    exact h.terminal
  · exact h.active
  · intro t ht
    unfold Console.autocomplete
    dsimp only
    rw [Function.update_of_ne]
    · rfl
    · rw [← h.active] at ht
      exact ht
  · rfl
  · rfl
  · unfold Console.autocomplete
    dsimp only
    rw [hsearch]
    exact hroom'
  · unfold Console.autocomplete
    dsimp only
    rw [hsearch]
    have hterminal : (k.loadIdx.raiseFlag 0x0F).handlerTerminal = m.terminal := h.active
    rw [hterminal, Function.update_self]
    exact htext
  · rfl

/-- The handler gets what is written on the key. -/
theorem Types.handler_cap {m : Modifiers} {E : Int → Editor} (h : Types k m E) (img : Image)
    (entered : Bool) (hc : c ≤ 0x55)
    (hne : c ≠ 0x1D) (hcaps : c ≠ 0x3A) (hswitch : m.switches c = false)
    (harrow : ¬ (c = 0x4B ∨ c = 0x4D ∨ c = 0x48 ∨ c = 0x50)) (herase : c ≠ 0x0E)
    (hcomplete : ¬ (c = 0x0F ∧ (!m.shifted) = true)) (hcap : keyCap m.shifted c ≠ 0) :
    k.keyboardHandler img entered c = (k.loadIdx.raiseFlag c).handleChar (keyCap m.shifted c) := by
  apply keyboardHandler_of_some
  rw [h.getChar_plain img entered hc hne hcaps hswitch harrow, if_neg (fun h => herase h.1),
    h.lookup_raised hc, if_neg hcap, if_neg hcomplete]

theorem keyCap_ne_dontPrint (shifted : Bool) (c : UInt8) : keyCap shifted c ≠ dontPrint := by
  revert c
  apply forall_byte
  revert shifted
  decide +kernel

theorem Types.step_char {m : Modifiers} {E : Int → Editor} (h : Types k m E) (hc : c ≤ 0x55)
    (hne : c ≠ 0x1D) (hcaps : c ≠ 0x3A) (hswitch : m.switches c = false) {cap : UInt8}
    (hprint : cap ≠ dontPrint) (hnl : cap ≠ 10)
    (hhandler : k.keyboardHandler img entered c = (k.loadIdx.raiseFlag c).handleChar cap) :
    Types (k.keyboardHandler img entered c) (m.step c)
      (stepAt (Editor.step img) E (m.terminal, .char cap)) := by
  have htext := h.text _ h.terminal.1 h.terminal.2
  have hroom := h.room _ h.terminal.1 h.terminal.2
  have hlen : (E m.terminal).text.length = k.saveIdx m.terminal := by rw [← htext, length_bufText]
  have hterminal : (k.loadIdx.raiseFlag c).handlerTerminal = m.terminal := h.active
  have hidx : (k.loadIdx.raiseFlag c).keyboardBufIdx = k.saveIdx m.terminal := by
    rw [← h.active]
    rfl
  rw [hhandler]
  unfold Console.handleChar
  rw [if_neg hprint, hidx]
  unfold stepAt Editor.step
  dsimp only
  by_cases hfull : k.saveIdx m.terminal = 127
  · -- only the byte behind the text is stored
    rw [if_pos ⟨hfull, hnl⟩, if_neg (by omega)]
    apply h.next
    · exact h.raised hc hne
    · rw [Modifiers.step_terminal hswitch]
      exact h.active
    · rw [if_neg hcaps]
      rfl
    · rw [Modifiers.step_terminal hswitch]
      exact h.terminal
    · intro t ht
      unfold Console.storeChar
      dsimp only
      rw [hterminal, Function.update_of_ne ht]
      exact ⟨rfl, rfl, rfl⟩
    · exact hroom
    · unfold Console.storeChar
      dsimp only
      rw [hterminal, Function.update_self, hidx, ← htext]
      apply bufText_congr
      intro i hi
      rw [Function.update_of_ne]
      · rfl
      · exact Nat.ne_of_lt hi
    · exact h.line _ h.terminal.1 h.terminal.2
  · -- the character goes to the end of the text
    have hlt : (E m.terminal).text.length < 127 := by omega
    rw [if_neg (fun h => hfull h.1), if_pos hlt, if_pos hnl]
    apply h.next
    · exact h.raised hc hne
    · rw [Modifiers.step_terminal hswitch]
      exact (Display.keyPutc_activeTerminal _ _).trans h.active
    · rw [if_neg hcaps]
      rfl
    · rw [Modifiers.step_terminal hswitch]
      exact h.terminal
    · intro t ht
      unfold Console.storeIdx Console.storeChar
      dsimp only
      rw [hterminal, Function.update_of_ne ht, Function.update_of_ne ht]
      exact ⟨rfl, rfl, rfl⟩
    · unfold Console.storeIdx Console.storeChar
      dsimp only
      rw [hterminal, Function.update_self, hidx]
      omega
    · unfold Console.storeIdx Console.storeChar
      dsimp only
      rw [hterminal, Function.update_self, Function.update_self, hidx, bufText_succ,
        Function.update_self, ← htext]
      refine congrArg (· ++ [cap]) (bufText_congr fun i hi => ?_)
      rw [Function.update_of_ne (Nat.ne_of_lt hi)]
      rfl
    · exact h.line _ h.terminal.1 h.terminal.2

theorem Types.step_enter {m : Modifiers} {E : Int → Editor} (h : Types k m E) (hc : c ≤ 0x55)
    (hne : c ≠ 0x1D) (hcaps : c ≠ 0x3A) (hswitch : m.switches c = false)
    (hhandler : k.keyboardHandler img entered c = (k.loadIdx.raiseFlag c).handleChar 10) :
    Types (k.keyboardHandler img entered c) (m.step c)
      (stepAt (Editor.step img) E (m.terminal, .enter)) := by
  have htext := h.text _ h.terminal.1 h.terminal.2
  have hroom := h.room _ h.terminal.1 h.terminal.2
  have hterminal : (k.loadIdx.raiseFlag c).handlerTerminal = m.terminal := h.active
  have hidx : (k.loadIdx.raiseFlag c).keyboardBufIdx = k.saveIdx m.terminal := by
    rw [← h.active]
    rfl
  have hbuf : (k.loadIdx.raiseFlag c).saveBuf = k.saveBuf := rfl
  -- the line is copied up to its first newline, which may be before the one of Enter
  have hlines : (k.loadIdx.raiseFlag c).lineBuf = k.lineBuf := rfl
  rw [hhandler]
  unfold Console.handleChar
  rw [if_neg (by decide : (10 : UInt8) ≠ dontPrint), if_neg (fun h => h.2 rfl)]
  unfold stepAt Editor.step
  dsimp only
  rw [if_neg (by decide)]
  unfold Console.storeIdx Console.completeLine Console.storeChar
  dsimp only
  rw [hterminal, if_pos h.terminal, hidx, hbuf, hlines]
  apply h.next
  · exact h.raised hc hne
  · rw [Modifiers.step_terminal hswitch]
    exact (Display.keyPutc_activeTerminal _ _).trans h.active
  · rw [if_neg hcaps]
    rfl
  · rw [Modifiers.step_terminal hswitch]
    exact h.terminal
  · intro t ht
    dsimp only
    rw [Function.update_of_ne ht, Function.update_of_ne ht, Function.update_of_ne ht,
      Function.update_of_ne ht]
    exact ⟨rfl, rfl, rfl⟩
  · dsimp only
    rw [Function.update_self]
    omega
  · dsimp only
    have hzero : Function.update (k.loadIdx.raiseFlag c).saveIdx m.terminal 0 m.terminal = 0 :=
      Function.update_self ..
    rw [hzero]
    rfl
  · intro l hl
    dsimp only
    rw [Function.update_self, Function.update_self]
    have hline := myStrcpy_line (Function.update (k.saveBuf m.terminal) (k.saveIdx m.terminal) 10)
      (by omega : k.saveIdx m.terminal < 128) (Function.update_self ..)
      (k.lineBuf m.terminal)
    have hkept : bufText (Function.update (k.saveBuf m.terminal) (k.saveIdx m.terminal) 10)
        (k.saveIdx m.terminal) = (E m.terminal).text := by
      rw [← htext]
      exact bufText_congr fun i hi => Function.update_of_ne (Nat.ne_of_lt hi) ..
    rw [hkept] at hline
    rw [← Option.some.inj hl]
    exact hline

/-- **One key**: the keyboard and the editor of the displayed terminal stay in step. -/
theorem Types.step {m : Modifiers} {E : Int → Editor} (h : Types k m E) (img : Image)
    (entered : Bool) (hc : InScope c) :
    Types (k.keyboardHandler img entered c) (m.step c)
      ((edits m c).elim E (stepAt (Editor.step img) E)) := by
  unfold edits
  rcases hc with ⟨hc, hne⟩ | ⟨hlo, hhi, -⟩ | hprefix
  · -- the keys that are pressed, in the order in which `getChar` tests them
    have hpress : ¬ 0x55 < c := UInt8.not_lt.mpr hc
    by_cases hcaps : c = 0x3A
    · subst hcaps
      rw [if_pos (by tauto)]
      exact h.step_caps
    cases hswitch : m.switches c with
    | true =>
      rw [if_pos (by tauto)]
      exact h.step_switch hswitch
    | false =>
      by_cases harrow : c = 0x4B ∨ c = 0x4D ∨ c = 0x48 ∨ c = 0x50
      · rw [if_pos (by tauto)]
        exact h.step_arrow harrow
      rw [if_neg (by simp only [Bool.false_eq_true]; tauto)]
      by_cases herase : c = 0x0E
      · subst herase
        rw [if_pos rfl]
        exact h.step_erase
      rw [if_neg herase]
      by_cases hcomplete : c = 0x0F ∧ (!m.shifted) = true
      · obtain ⟨rfl, hshift⟩ := hcomplete
        rw [if_pos ⟨rfl, hshift⟩]
        exact h.step_complete hshift
      rw [if_neg hcomplete]
      dsimp only
      by_cases hcap : keyCap m.shifted c = 0
      · rw [if_pos hcap]
        apply h.step_quiet hc hne hcaps hswitch
        rw [h.getChar_plain img entered hc hne hcaps hswitch harrow, if_neg (fun h => herase h.1),
          h.lookup_raised hc, if_pos hcap, if_neg hcomplete]
      rw [if_neg hcap]
      have hhandler := h.handler_cap img entered hc hne hcaps hswitch harrow
        herase hcomplete hcap
      by_cases hnl : keyCap m.shifted c = 10
      · rw [hnl] at hhandler ⊢
        exact h.step_enter hc hne hcaps hswitch hhandler
      · rw [if_neg hnl]
        exact h.step_char hc hne hcaps hswitch (keyCap_ne_dontPrint m.shifted c) hnl hhandler
  · have hrelease : 0x55 < c := UInt8.lt_of_lt_of_le (by decide) hlo
    rw [if_pos (.inl hrelease)]
    exact h.step_release hlo hhi
  · have hrelease : 0x55 < c := UInt8.lt_trans (by decide) hprefix
    rw [if_pos (.inl hrelease)]
    exact h.step_prefix hprefix

end Handler

/-! ## The line discipline -/

/-- A byte from the keyboard, and whether a terminal switch that starts a shell enters it. -/
structure Key where
  code : UInt8
  entered : Bool

/-- One keyboard interrupt. -/
def keyStep (img : Image) (k : Console) (key : Key) : Console :=
  k.keyboardHandler img key.entered key.code

/-- What a key does to the modifiers. -/
def holdStep (m : Modifiers) (key : Key) : Modifiers := m.step key.code

/-- The commands that keys are, each with its terminal, when `m` is held before them. -/
def commands (m : Modifiers) (keys : List Key) : List (Int × Edit) :=
  observe holdStep (fun m key => edits m key.code) m keys

/-- The commands behind the last Enter. -/
def sinceEnter (cmds : List Edit) : List Edit := (cmds.reverse.takeWhile (· ≠ .enter)).reverse

/-- What has been typed on terminal `t` since the last Enter. -/
def typed (img : Image) (keys : List Key) (t : Int) : List UInt8 :=
  (run (Editor.step img) Editor.start
    (sinceEnter (eventsAt t (commands Modifiers.start keys)))).text

/-- The line of an editor does not matter for its text. -/
theorem Editor.step_text (img : Image) {ed ed' : Editor} (h : ed.text = ed'.text) (e : Edit) :
    (ed.step img e).text = (ed'.step img e).text := by
  cases e with
  | char c =>
    unfold Editor.step
    dsimp only
    rw [h]
    split
    · rfl
    · exact h
  | erase => simp [Editor.step, h]
  | complete => simp [Editor.step, h]
  | enter => rfl

/-- Enter empties the text, so only the commands behind it matter. -/
theorem text_sinceEnter (img : Image) (cmds : List Edit) :
    (run (Editor.step img) Editor.start (sinceEnter cmds)).text =
      (run (Editor.step img) Editor.start cmds).text := by
  induction cmds using List.reverseRecOn with
  | nil => rfl
  | append_singleton cmds e ih =>
    unfold sinceEnter at ih ⊢
    rw [List.reverse_append, List.reverse_singleton, List.singleton_append, List.takeWhile_cons]
    by_cases henter : e = .enter
    · rw [henter, run_append]
      rfl
    · rw [decide_eq_true henter, if_pos rfl, List.reverse_cons, run_append, run_append]
      exact Editor.step_text img ih e

theorem types_init (k : Console) : Types k.init Modifiers.start fun _ => Editor.start where
  terminal := ⟨le_refl 0, by decide⟩
  active := rfl
  left := by simp [Console.init, Modifiers.start]
  right := by simp [Console.init, Modifiers.start]
  alt := by simp [Console.init, Modifiers.start]
  ctl := rfl
  caps := rfl
  room _ _ _ := Nat.zero_le 127
  text _ _ _ := rfl
  line _ _ _ l hl := by cases hl

/-- **Any keys**: each terminal holds what an editor of its own holds. -/
theorem Types.run_keys (img : Image) {k : Console} {m : Modifiers} {E : Int → Editor}
    {keys : List Key} (h : Types k m E) (hscope : ∀ key ∈ keys, InScope key.code) :
    Types (run (keyStep img) k keys) (run holdStep m keys)
      (run (stepAt (Editor.step img)) E (commands m keys)) := by
  induction keys generalizing k m E with
  | nil => exact h
  | cons key keys ih =>
    have hstep := h.step img key.entered (hscope key List.mem_cons_self)
    have hrest := ih hstep fun key' hkey' => hscope key' (List.mem_cons_of_mem key hkey')
    have hcommands : commands m (key :: keys) =
        (edits m key.code).toList ++ commands (m.step key.code) keys := rfl
    rw [hcommands, run_append, run_cons, run_cons]
    cases hedits : edits m key.code with
    | none =>
      rw [hedits] at hrest
      exact hrest
    | some d =>
      rw [hedits] at hrest
      exact hrest

/-- Keys that are pressed while `t` is not displayed give it no command. -/
theorem eventsAt_commands_of_elsewhere {m : Modifiers} {keys : List Key} {t : Int}
    (h : Along holdStep (fun m _ => m.terminal ≠ t) m keys) : eventsAt t (commands m keys) = [] := by
  induction keys generalizing m with
  | nil => rfl
  | cons key keys ih =>
    obtain ⟨hne, hrest⟩ := h
    have hcommands : commands m (key :: keys) =
        (edits m key.code).toList ++ commands (m.step key.code) keys := rfl
    have hkeys : eventsAt t (commands (m.step key.code) keys) = [] := ih hrest
    have hkey : eventsAt t (edits m key.code).toList = [] := by
      unfold edits eventsAt
      dsimp only
      split_ifs <;> simp [hne]
    unfold eventsAt at hkeys hkey ⊢
    rw [hcommands, List.filterMap_append, hkeys, hkey, List.append_nil]

theorem commands_append (m : Modifiers) (keys keys' : List Key) :
    commands m (keys ++ keys') = commands m keys ++ commands (run holdStep m keys) keys' := by
  unfold commands
  exact observe_append m keys keys'

/-- **The line discipline**: when Enter is pressed, the line buffer of the displayed terminal holds
the text that an editor makes of the keys pressed there since the last Enter, up to its first
newline, and a newline. Keys of other terminals matter only if they leave Shift, CapsLock or Alt
changed. -/
theorem line_discipline (img : Image) (k : Console) (keys : List Key)
    (hscope : ∀ key ∈ keys, InScope key.code) (entered : Bool) :
    let before := run (keyStep img) k.init keys
    let t := before.activeTerminal
    let line := (typed img keys t).takeWhile (· ≠ 10) ++ [10]
    bufText ((keyStep img before ⟨0x1C, entered⟩).lineBuf t) line.length = line ∧
      ∀ first elsewhere rest, keys = first ++ elsewhere ++ rest →
        Along holdStep (fun m _ => m.terminal ≠ t) (run holdStep Modifiers.start first) elsewhere →
        run holdStep Modifiers.start (first ++ elsewhere) = run holdStep Modifiers.start first →
        typed img keys t = typed img (first ++ rest) t := by
  intro before t line
  have htypes := (types_init k).run_keys img hscope
  have hterminal : (run holdStep Modifiers.start keys).terminal = t := htypes.active.symm
  constructor
  · -- Enter completes the line of the editor of the displayed terminal
    have henter : edits (run holdStep Modifiers.start keys) 0x1C = some (t, .enter) := by
      have hswitch := switches_eq_false (m := run holdStep Modifiers.start keys) (c := 0x1C)
        (by decide)
      have hcap : ∀ b, keyCap b 0x1C = 10 := by decide
      unfold edits
      rw [hswitch, hcap, hterminal]
      rfl
    have hstep := htypes.step img entered (c := 0x1C) (by decide)
    rw [henter] at hstep
    have htext : (run (stepAt (Editor.step img)) (fun _ => Editor.start)
        (commands Modifiers.start keys) t).text = typed img keys t := by
      rw [run_stepAt, ← text_sinceEnter]
      rfl
    apply hstep.line t
    · rw [← hterminal]
      exact htypes.terminal.1
    · rw [← hterminal]
      exact htypes.terminal.2
    · change (stepAt (Editor.step img) _ (t, .enter) t).line = some line
      rw [stepAt, Function.update_self, Editor.step, htext]
  · intro first elsewhere rest hkeys haway hsame
    have hnone := eventsAt_commands_of_elsewhere haway
    -- while the modifiers are the same, keys pressed elsewhere make no commands here
    unfold typed
    congr 3
    rw [hkeys, commands_append, commands_append, commands_append, hsame]
    unfold eventsAt at hnone ⊢
    rw [List.filterMap_append, List.filterMap_append, List.filterMap_append, hnone, List.append_nil]

/-- Bytes of the keyboard, when no shell is started. -/
def keysOf (codes : List UInt8) : List Key := codes.map fun c => ⟨c, false⟩

/-- `L` with shift, `s`, a character that is erased, and Enter. -/
theorem line_discipline_sample :
    let before := run (keyStep sampleImage) sampleConsole.init
      (keysOf [0x2A, 0x26, 0xA6, 0xAA, 0x1F, 0x9F, 0x1E, 0x9E, 0x0E, 0x8E])
    bufText ((keyStep sampleImage before ⟨0x1C, false⟩).lineBuf before.activeTerminal) 3 =
      [76, 115, 10] := by
  have hline := (line_discipline sampleImage sampleConsole
    (keysOf [0x2A, 0x26, 0xA6, 0xAA, 0x1F, 0x9F, 0x1E, 0x9E, 0x0E, 0x8E]) (by decide) false).1
  have htyped : (typed sampleImage (keysOf [0x2A, 0x26, 0xA6, 0xAA, 0x1F, 0x9F, 0x1E, 0x9E, 0x0E, 0x8E])
      (run (keyStep sampleImage) sampleConsole.init
        (keysOf [0x2A, 0x26, 0xA6, 0xAA, 0x1F, 0x9F, 0x1E, 0x9E, 0x0E, 0x8E])).activeTerminal).takeWhile
          (· ≠ 10) ++ [10] = [76, 115, 10] := by
    decide +kernel
  rw [htyped] at hline
  exact hline

/-- An image with one file, whose name `a`, newline, `b` has a newline in it. -/
def newlineImage : Image := fun a =>
  (([(0, 1), (64, 97), (65, 10), (66, 98)] : List (Nat × UInt8)).lookup a).getD 0

/-- CapsLock, pressed while the second terminal is displayed, changes the line that is typed on the
first; and a name with a newline in it cuts the line that it completes. -/
theorem line_not_local :
    let lineAfter := fun img codes =>
      (run (keyStep img) sampleConsole.init (keysOf codes)).lineBuf 0
    let keysOn := fun codes => observe holdStep
      (fun m (key : Key) => if m.terminal = 0 then some key.code else none) Modifiers.start
      (keysOf codes)
    (keysOn [0x38, 0x3C, 0x3A, 0xBA, 0x3B, 0xB8, 0x1E, 0x1C] =
        keysOn [0x38, 0x3C, 0x3B, 0xB8, 0x1E, 0x1C] ∧
      lineAfter sampleImage [0x38, 0x3C, 0x3A, 0xBA, 0x3B, 0xB8, 0x1E, 0x1C] 0 ≠
        lineAfter sampleImage [0x38, 0x3C, 0x3B, 0xB8, 0x1E, 0x1C] 0) ∧
    (typed newlineImage (keysOf [0x1E, 0x9E, 0x0F]) 0 = [97, 10, 98] ∧
      lineAfter newlineImage [0x1E, 0x9E, 0x0F, 0x1C] 2 ≠ 98) := by
  decide +kernel

end SrirachOS
