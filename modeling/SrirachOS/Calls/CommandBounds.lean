import SrirachOS.Calls.UserPointers
import SrirachOS.Foundation.Traced
import SrirachOS.Kernel.Command

/-!
# The Bounds of the Command Arrays

The loops that take a command apart stop at a character, never at the end of an array: the word goes
to `parsed_command` on the stack of the kernel, the argument text to `arg_buf`, 128 bytes each.

- `Storing.splitCommand`: the parser with the indices that it stores to,
- `stores_within_iff`: they are inside the arrays when both texts and their terminators are,
- `command_safe_iff`: so exactly the commands whose texts fit are safe.
-/

namespace SrirachOS

open Foundation Traced

namespace Kernel

/-! ## Stores -/

/-- A store of the parser. -/
inductive ParseStore where
  | parsedCommand (i : Nat)
  | argBuf (i : Nat)
  deriving DecidableEq

/-- It is one to an entry of the array. -/
def ParseStore.InBounds : ParseStore → Prop
  | parsedCommand i => i < 128
  | argBuf i => i < 128

instance : DecidablePred ParseStore.InBounds
  | .parsedCommand i => inferInstanceAs (Decidable (i < 128))
  | .argBuf i => inferInstanceAs (Decidable (i < 128))

namespace Storing

/-- A copying loop, which stores to entry `j` of its array. -/
def copyWhile (entry : Nat → ParseStore) (command : CStr) (stops : UInt8 → Bool) :
    Nat → Nat → Nat → (Nat → UInt8) → Traced ParseStore (Nat × Nat × (Nat → UInt8))
  | 0, i, j, buf => pure (i, j, buf)
  | turns + 1, i, j, buf =>
    if stops (command.char i) then pure (i, j, buf)
    else do
      touch (entry j)
      copyWhile entry command stops turns (i + 1) (j + 1) (Function.update buf j (command.char i))

/-- `// parse command` and `// parse arg`, each loop with `turns` turns. -/
def splitCommand (turns : Nat) (command : CStr) (parsedCommand argBuf : Nat → UInt8) :
    Traced ParseStore ((Nat → UInt8) × (Nat → UInt8)) := do
  let i := skipSpaces command turns 0
  let word ← copyWhile .parsedCommand command endsWord turns i 0 parsedCommand
  touch (.parsedCommand word.2.1)
  let parsedCommand := Function.update word.2.2 word.2.1 0
  touch (.argBuf 0)
  let argBuf := Function.update argBuf 0 0
  let i := skipSpaces command turns word.1
  let arg ← copyWhile .argBuf command endsText turns i 0 argBuf
  touch (.argBuf arg.2.1)
  pure (parsedCommand, Function.update arg.2.2 arg.2.1 0)

theorem copyWhile_value (entry : Nat → ParseStore) (command : CStr) (stops : UInt8 → Bool)
    (turns i j : Nat) (buf : Nat → UInt8) :
    (copyWhile entry command stops turns i j buf).value =
      Kernel.copyWhile command stops turns i j buf := by
  induction turns generalizing i j buf with
  | zero => rfl
  | succ turns ih =>
    rw [copyWhile, Kernel.copyWhile, value_ite]
    exact if_congr Iff.rfl rfl (ih ..)

theorem splitCommand_value (turns : Nat) (command : CStr) (parsedCommand argBuf : Nat → UInt8) :
    (splitCommand turns command parsedCommand argBuf).value =
      Kernel.splitCommand turns command parsedCommand argBuf := by
  simp only [splitCommand, value_bind, value_pure, copyWhile_value]
  rfl

/-- A loop that begins at entry `j` stores to the entries from there up to the index at which it
ends. -/
theorem copyWhile_within_iff {P : ParseStore → Prop} (entry : Nat → ParseStore) (command : CStr)
    (stops : UInt8 → Bool) (turns i j : Nat) (buf : Nat → UInt8) :
    j ≤ (Kernel.copyWhile command stops turns i j buf).2.1 ∧
      ((copyWhile entry command stops turns i j buf).Within P ↔
        ∀ m, j ≤ m → m < (Kernel.copyWhile command stops turns i j buf).2.1 → P (entry m)) := by
  induction turns generalizing i j buf with
  | zero => exact ⟨le_refl j, iff_of_true (within_pure _) fun m h1 h2 => absurd h1 (Nat.not_le.mpr h2)⟩
  | succ turns ih =>
    -- the induction is on the turns: one store to entry `j`, and those of the rest
    rw [copyWhile, Kernel.copyWhile, within_ite]
    by_cases hstop : stops (command.char i) = true
    · rw [if_pos hstop, if_pos hstop]
      exact ⟨le_refl j, iff_of_true (within_pure _) fun m h1 h2 => absurd h1 (Nat.not_le.mpr h2)⟩
    · rw [if_neg hstop, if_neg hstop, within_bind, within_touch]
      obtain ⟨hle, hrest⟩ := ih (i + 1) (j + 1) (Function.update buf j (command.char i))
      refine ⟨by omega, (and_congr_right fun _ => hrest).trans ⟨?_, fun h => ⟨?_, ?_⟩⟩⟩
      · rintro ⟨hfirst, hlater⟩ m hm hlt
        rcases Nat.lt_or_eq_of_le hm with hgt | rfl
        · exact hlater m hgt hlt
        · exact hfirst
      · exact h j (le_refl j) (by omega)
      · exact fun m hm hlt => h m (by omega) hlt

/-- **The stores of the parser** are inside the arrays when each of the two texts leaves room for its
terminator. -/
theorem stores_within_iff (command : CStr) {turns : Nat} (hturns : command.length ≤ turns)
    (parsedCommand argBuf : Nat → UInt8) :
    (splitCommand turns command parsedCommand argBuf).Within ParseStore.InBounds ↔
      ¬ Overruns command := by
  obtain ⟨⟨hword, -⟩, harg, -⟩ :=
    split_texts command hturns parsedCommand (Function.update argBuf 0 0)
  -- each loop stores to its entries from 0 up to the length of its text
  have hloop (entry : Nat → ParseStore) (stops : UInt8 → Bool) (i : Nat) (buf : Nat → UInt8) :=
    (copyWhile_within_iff (P := ParseStore.InBounds) entry command stops turns i 0 buf).2
  unfold splitCommand
  simp only [within_bind, within_touch, within_pure, copyWhile_value, hloop, hword, harg]
  unfold Overruns
  constructor
  · rintro ⟨-, hword', -, -, harg', -⟩ hover
    have hword'' : (parseCommand command).1.length < 128 := hword'
    have harg'' : (parseCommand command).2.length < 128 := harg'
    omega
  · intro hfits
    have hword' : ParseStore.InBounds (.parsedCommand (parseCommand command).1.length) := by
      change _ < 128
      omega
    have harg' : ParseStore.InBounds (.argBuf (parseCommand command).2.length) := by
      change _ < 128
      omega
    exact ⟨fun m _ hm => hm.trans hword', hword', show 0 < 128 by decide,
      fun m _ hm => hm.trans harg', harg', trivial⟩

end Storing

/-! ## Safe commands -/

/-- What execute should do with a command: it stores to no other bytes than those of the two arrays,
and returns -1 if one of the texts does not fit into its array. -/
def CommandSafe (img : Image) (command : CStr) (junk : Nat → UInt8) (caller : Caller) (k : Kernel)
    (turns : Nat) (parsedCommand argBuf : Nat → UInt8) : Prop :=
  (Storing.splitCommand turns command parsedCommand argBuf).Within ParseStore.InBounds ∧
    (Overruns command → ∃ k', systemExecute img command junk caller k = .returned (-1) k')

/-- **The length of a command**: for every command, however long, execute is safe exactly when the
word has at most 127 characters and so has the argument text. -/
theorem command_safe_iff (img : Image) (command : CStr) (junk : Nat → UInt8) (caller : Caller)
    (k : Kernel) {turns : Nat} (hturns : command.length ≤ turns) (parsedCommand argBuf : Nat → UInt8) :
    CommandSafe img command junk caller k turns parsedCommand argBuf ↔
      (parseCommand command).1.length ≤ 127 ∧ (parseCommand command).2.length ≤ 127 := by
  have hfits : ¬ Overruns command ↔
      (parseCommand command).1.length ≤ 127 ∧ (parseCommand command).2.length ≤ 127 := by
    unfold Overruns
    omega
  unfold CommandSafe
  rw [Storing.stores_within_iff command hturns, ← hfits]
  -- with texts that fit there is nothing to refuse, and without there are stores behind an array
  exact and_iff_left_of_imp fun hnot hover => absurd hover hnot

/-- `cat a` -/
theorem command_safe_iff_sample :
    CommandSafe sampleImage [99, 97, 116, 32, 97] noJunk .syscall (sampleKernel fun _ => 0) 5
      (fun _ => 0) fun _ => 0 :=
  (command_safe_iff sampleImage [99, 97, 116, 32, 97] noJunk .syscall _ (by decide) _ _).mpr
    (by decide)

/-- `shell` and 128 letters: the terminator of the argument text is stored behind `arg_buf`, and the
shell is executed. -/
theorem argument_overruns :
    let command := shell ++ 32 :: List.replicate 128 97
    let k := boot sampleImage sampleTable noJunk (sampleKernel fun _ => 0)
    (ParseStore.argBuf 128) ∈ (Storing.splitCommand command.length command (fun _ => 0)
        fun _ => 0).touched ∧
      (∃ k', systemExecute sampleImage command noJunk .syscall k = .entered k') ∧
      ¬ CommandSafe sampleImage command noJunk .syscall k command.length (fun _ => 0) fun _ => 0 := by
  intro command k
  have hstore : (ParseStore.argBuf 128) ∈ (Storing.splitCommand command.length command (fun _ => 0)
      fun _ => 0).touched := by decide +kernel
  have hword : (parseCommand command).1 = (parseCommand shell).1 := by decide +kernel
  obtain ⟨prog, hprog, hlen⟩ := shellStarts_sampleImage noJunk
  rw [← hword] at hprog
  -- the terminator is stored to the variable that names the displayed terminal
  have hfollowed : Followed command := by decide +kernel
  have hslot : (k.storeArgs (parseCommand command).2).findSlot 6 0 = some 3 := by decide +kernel
  have hresult := systemExecute_of_followed hfollowed sampleImage noJunk .syscall k
  generalize k.storeArgs (parseCommand command).2 = k₁ at hslot hresult
  obtain ⟨k', hk', -⟩ := executeFile_entered hprog hlen .syscall hslot k₁.argBuf
  exact ⟨hstore, ⟨k', hresult.trans hk'⟩, fun h => absurd (h.1 _ hstore) (by decide)⟩

end Kernel

end SrirachOS
