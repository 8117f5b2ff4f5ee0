import Clubcos.Terminal.Model

/-!
# The characters on the screen

`Terminal.chars` are the characters of the VGA text buffer in row-major order, without their colors.

* `chars_scroll`, `chars_putCell`, `chars_delete`   what the subroutines of terminal.c do to them;
* `nextCell_ptr`    a position that is counted up is the next one in row-major order;
* `findRight_eq`    the search of `csFindRightNotNullCol`.
-/

set_option linter.unusedVariables false

namespace Clubcos
open Word

/-! ## positions -/

theorem inc16_of_lt {n : Nat} (h : n < 2^16 - 1) : inc16 n = n + 1 := Nat.mod_eq_of_lt (by omega)

theorem dec16_of_pos {n : Nat} (h : 0 < n) (hlt : n < 2^16) : dec16 n = n - 1 := by
  unfold dec16
  omega

theorem nextCell_eq {row column : Nat} (hr : row < terminalHeight) (hc : column < terminalWidth) :
    nextCell row column = if column + 1 = terminalWidth then (row + 1, 0) else (row, column + 1) := by
  unfold terminalHeight terminalWidth at *
  rw [nextCell, inc16_of_lt (n := column) (by omega), inc16_of_lt (n := row) (by omega)]
  rfl

theorem nextCell_ptr {row column : Nat} (hr : row < terminalHeight) (hc : column < terminalWidth) :
    (nextCell row column).1 * terminalWidth + (nextCell row column).2 = row * terminalWidth + column + 1 ∧
      (nextCell row column).2 < terminalWidth := by
  rw [nextCell_eq hr hc]
  unfold terminalWidth at *
  split <;> omega

theorem nextCell_lt {row column : Nat} (hr : row < terminalHeight) (hc : column < terminalWidth)
    (hlast : ¬ (row = terminalHeight - 1 ∧ column = terminalWidth - 1)) :
    (nextCell row column).1 < terminalHeight ∧ (nextCell row column).2 < terminalWidth := by
  rw [nextCell_eq hr hc]
  unfold terminalHeight terminalWidth at *
  split <;> omega

theorem cellCount_eq {a b : Nat} (h : a ≤ b) (hb : b < 2^31) : cellCount a b = b - a := by
  unfold cellCount
  omega

/-! ## functions of the cells -/

section
variable {A B : Type} (f : A → B) (m : Nat → A)

theorem memmove_map (dest src count : Nat) :
    f ∘ memmove m dest src count = memmove (f ∘ m) dest src count := by
  funext i
  exact apply_ite f _ _ _

theorem memset_map (dest : Nat) (v : A) (count : Nat) :
    f ∘ memset_2 m dest v count = memset_2 (f ∘ m) dest (f v) count := by
  funext i
  exact apply_ite f _ _ _

end

def Cell.char (c : Cell) : Byte := c.setWidth 8

def Terminal.chars (s : Terminal) : Nat → Byte := Cell.char ∘ s.termBuffer

theorem char_entry (c color : Byte) : Cell.char (csMakeVGAEntry c color) = c := by
  unfold Cell.char csMakeVGAEntry
  ext i hi
  simp [BitVec.getLsbD_signExtend, hi]
  omega

theorem char_clear (c : Cell) : Cell.char (c &&& 0xff00) = 0 := by
  rw [Cell.char, BitVec.setWidth_and]
  exact BitVec.and_zero

theorem isNull_iff (c : Cell) : c.isNull = true ↔ Cell.char c = 0 := beq_iff_eq

/-! ## the subroutines -/

theorem chars_scroll (s : Terminal) (i : Nat) : (csScrollScreen s).chars i =
    if i < (terminalHeight - 1) * terminalWidth then s.chars (i + terminalWidth)
    else if i < terminalHeight * terminalWidth then 0 else s.chars i := by
  have h : (csScrollScreen s).chars = memset_2 (memmove s.chars 0 terminalWidth ((terminalHeight - 1) * terminalWidth))
      ((terminalHeight - 1) * terminalWidth) 0 terminalWidth := by
    show Cell.char ∘ memset_2 _ _ _ _ = _
    rw [memset_map, memmove_map, char_entry]
    rfl
  rw [h, memset_2, memmove]
  unfold terminalHeight terminalWidth
  by_cases h1 : i < 1840
  · rw [if_neg (by omega), if_pos (by omega), if_pos h1]
    congr 1
    omega
  · by_cases h2 : i < 1920
    · rw [if_pos (by omega), if_neg h1, if_pos h2]
    · rw [if_neg (by omega), if_neg (by omega), if_neg h1, if_neg h2]

theorem chars_putCell (s : Terminal) (c : Byte) : (putCell s c).chars =
    Function.update (memmove s.chars (s.cursorPtr + 1) s.cursorPtr (cellCount s.cursorPtr s.endPtr)) s.cursorPtr c := by
  show Cell.char ∘ Function.update _ _ _ = _
  rw [Function.comp_update, memmove_map, char_entry]
  rfl

/-- the cells of `ckTerminalDelete_unsafe`: only the character of the last one is cleared -/
theorem chars_delete (screen : Nat → Cell) (ends : Nat) :
    Cell.char ∘ Function.update screen ends (screen ends &&& 0xff00) = Function.update (Cell.char ∘ screen) ends 0 := by
  rw [Function.comp_update, char_clear]

/-- the last byte of a full line stays in `s_InputArray`: it is taken out after the copy -/
theorem enterLine_eq (s : Terminal) : enterLine s =
    let s := csNewLine s
    let input := ckArray8Append s.inputArray s.lineBufArray
    ckTerminalClearLineBuffer_unsafe { s with
      inputArray := { input with mem := Function.update input.mem input.now 0x0a, now := input.now + 1 }
      lineEvent := ckBiSemPost s.lineEvent } := by
  unfold enterLine
  simp only []
  split <;> rfl

theorem ckTerminalOnInput_editLine {s : Terminal} (hs : s.termStat = .stringInputing) (cascii : Byte) :
    ckTerminalOnInput s cascii = (editLine { s with
      hitKeyQueue := (ckCircularQueue8Put s.hitKeyQueue cascii).2
      hitEvent := ckBiSemPost s.hitEvent
      termStat := .waiting } cascii).map fun s => { s with termStat := .stringInputing } := by
  unfold ckTerminalOnInput
  simp only [hs, ne_eq, not_true_eq_false, if_false]

theorem onInput_waiting {s : Terminal} (hs : s.termStat = .waiting) (cascii : Byte) :
    ckTerminalOnInput s cascii = some { s with
      hitKeyQueue := (ckCircularQueue8Put s.hitKeyQueue cascii).2
      hitEvent := ckBiSemPost s.hitEvent } := by
  unfold ckTerminalOnInput
  exact if_pos fun e => TermStatus.noConfusion (hs.symm.trans e)

theorem insertChar_eq {s s' : Terminal} {c : Byte} {ar : Array8}
    (har : ckArray8Insert s.lineBufArray s.lineBufPtr c = some (true, ar))
    (hput : ckTerminalPutChar_unsafe { s with lineBufArray := ar, lineBufPtr := s.lineBufPtr + 1 } c = some (true, s')) :
    insertChar s c = some s' := by
  unfold insertChar
  simp only [har, hput]

/-- the cells behind the 24 rows, with the status row -/
theorem scroll_below (s : Terminal) {i : Nat} (h : terminalHeight * terminalWidth ≤ i) :
    (csScrollScreen s).termBuffer i = s.termBuffer i := by
  unfold terminalHeight terminalWidth at h
  show memset_2 (memmove _ _ _ _) _ _ _ i = _
  unfold memset_2 memmove terminalHeight terminalWidth
  rw [if_neg (by omega), if_neg (by omega)]

/-- the search ends behind the last character of a row -/
theorem findRight_eq {screen : Nat → Cell} {row n : Nat} (hn : Cell.char (screen (row * terminalWidth + n)) ≠ 0) :
    ∀ {k : Nat}, n < k → (∀ i, n < i → i < k → Cell.char (screen (row * terminalWidth + i)) = 0) →
      findRightNotNull screen row k = n + 1
  | k + 1, hlt, hnull => by
    unfold findRightNotNull
    rcases Nat.eq_or_lt_of_le (Nat.le_of_lt_succ hlt) with rfl | hlt
    · rw [if_neg fun h => hn ((isNull_iff _).mp h)]
    · rw [if_pos ((isNull_iff _).mpr (hnull k hlt (Nat.lt_succ_self k)))]
      exact findRight_eq hn hlt fun i h1 h2 => hnull i h1 (Nat.lt_succ_of_lt h2)

end Clubcos
