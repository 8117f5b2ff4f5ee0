import Clubcos.Terminal.Edit

/-!
# Backspace

* `moveBack`          the cursor one cell back in row-major order;
* `Backspaces`        what `ckTerminalBackspace` is to do: it terminates, keeps cursor and end on the screen, and behind a
  character it is `moveBack` and `ckTerminalDelete`;
* `delete_inBounds`   a delete keeps the end on the screen, unless it goes back to a full row;
* `backspace_endless` in the first column the loop never ends if the row above is not full, `backspace_wraps` if it is full
  the cursor is left behind the last column;
* `backspaces_iff`    **when Backspace does what it is to do**;
* `newline_backspace` after a newline it never returns.
-/

set_option linter.unusedVariables false

namespace Clubcos
open Word

/-- the cursor and the end lie in the rows 0..23 and the columns 0..79 -/
structure InBounds (s : Terminal) : Prop where
  cursor : CellAt s.cursorRow s.cursorColumn s.cursorPtr
  ends : CellAt s.endRow s.endColumn s.endPtr

def moveBack (s : Terminal) : Terminal :=
  if s.cursorColumn = 0 then { s with cursorRow := s.cursorRow - 1, cursorColumn := terminalWidth - 1 }
  else { s with cursorColumn := s.cursorColumn - 1 }

/-- the same characters, cursor and end -/
structure SameView (s s' : Terminal) : Prop where
  chars : s'.chars = s.chars
  cursor : s'.cursorRow = s.cursorRow ∧ s'.cursorColumn = s.cursorColumn
  ends : s'.endRow = s.endRow ∧ s'.endColumn = s.endColumn

structure Backspaces (s : Terminal) : Prop where
  returns : ∃ s', ckTerminalBackspace_unsafe s = some s' ∧ ckTerminalPutChar_unsafe s 0x08 = some (true, s') ∧ InBounds s'
  deletes : ∀ s', ckTerminalBackspace_unsafe s = some s' → 0 < s.cursorPtr → s.chars (s.cursorPtr - 1) ≠ 0 →
    SameView ( ckTerminalDelete_unsafe (moveBack s)) s'

/-! ## the search in a row -/

theorem findRightNotNull_le (screen : Nat → Cell) (row : Nat) : ∀ n, findRightNotNull screen row n ≤ n
  | 0 => Nat.le_refl 0
  | n+1 => by
    unfold findRightNotNull
    split
    · exact (findRightNotNull_le screen row n).trans (Nat.le_succ n)
    · exact Nat.le_refl _

/-- the search comes to the end of a row exactly if there is a character -/
theorem findRightNotNull_lt_iff (screen : Nat → Cell) (row n : Nat) :
    findRightNotNull screen row (n + 1) < n + 1 ↔ Cell.char (screen (row * terminalWidth + n)) = 0 := by
  rw [← isNull_iff]
  unfold findRightNotNull
  cases h : Cell.isNull (screen (row * terminalWidth + n)) with
  | true => exact iff_of_true (Nat.lt_succ_of_le (findRightNotNull_le screen row n)) rfl
  | false => exact iff_of_false (Nat.lt_irrefl _) Bool.false_ne_true

/-! ## delete -/

theorem deletedCells_chars (s : Terminal) : Cell.char ∘ deletedCells s =
    Function.update (memmove s.chars s.cursorPtr (s.cursorPtr + 1) (cellCount s.cursorPtr s.endPtr)) s.endPtr 0 := by
  rw [deletedCells, chars_delete, memmove_map]
  rfl

section
variable {s : Terminal} (h : InBounds s) (hlt : s.cursorPtr < s.endPtr)
include h

theorem InBounds.endPtr_lt : s.endPtr < screenCells := by
  have h1 := h.ends.eq
  have h2 := h.ends.width
  have h3 := h.ends.height
  unfold screenCells terminalHeight terminalWidth at *
  omega

include hlt

/-- the last cell but one gets the character of the end cell -/
theorem deletedCells_last : Cell.char (deletedCells s (s.endPtr - 1)) = s.chars s.endPtr := by
  have hcells : screenCells < 2^31 := by decide
  have hend := h.endPtr_lt
  have hcount : cellCount s.cursorPtr s.endPtr = s.endPtr - s.cursorPtr := cellCount_eq hlt.le (by omega)
  have hmove : s.cursorPtr ≤ s.endPtr - 1 ∧ s.endPtr - 1 < s.cursorPtr + cellCount s.cursorPtr s.endPtr := by
    rw [hcount]
    omega
  have hfrom : s.cursorPtr + 1 + (s.endPtr - 1 - s.cursorPtr) = s.endPtr := by omega
  show (Cell.char ∘ deletedCells s) (s.endPtr - 1) = _
  rw [deletedCells_chars, Function.update_of_ne (by omega), memmove, if_pos hmove, hfrom]

/-- **A delete keeps cursor and end on the screen** exactly if the end does not go back to a row that is full then. -/
theorem delete_inBounds : InBounds ( ckTerminalDelete_unsafe s) ↔ s.endColumn ≠ 0 ∨ s.chars s.endPtr = 0 := by
  have hne := hlt.ne
  by_cases e : s.endColumn = 0
  · have hup := h.ends.up e (Nat.zero_lt_of_lt hlt)
    have hlast : dec16 s.endRow * terminalWidth + (terminalWidth - 1) = s.endPtr - 1 := hup.eq
    have hfull := findRightNotNull_lt_iff (deletedCells s) (dec16 s.endRow) (terminalWidth - 1)
    rw [hlast, deletedCells_last h hlt] at hfull
    rw [ckTerminalDelete_row hne e]
    constructor
    · exact fun hs => Or.inr (hfull.mp hs.ends.width)
    · intro hc
      refine ⟨⟨rfl, h.cursor.width, h.cursor.height⟩, ⟨rfl, hfull.mpr (hc.resolve_left fun hn => hn e), hup.height⟩⟩
  · rw [ckTerminalDelete_column hne e]
    have hleft := h.ends.left e
    exact iff_of_true ⟨⟨rfl, h.cursor.width, h.cursor.height⟩, ⟨rfl, hleft.width, hleft.height⟩⟩ (Or.inl e)

end

/-! ## backspace -/

section
variable {s : Terminal}

theorem backspace_inside (hc : s.cursorColumn ≠ 0) : ckTerminalBackspace_unsafe s =
    some ( ckTerminalDelete_unsafe { s with cursorColumn := dec16 s.cursorColumn }) := if_pos hc

theorem backspace_origin (hr : s.cursorRow = 0) (hc : s.cursorColumn = 0) :
    ckTerminalBackspace_unsafe s = some ( ckTerminalUpdateCursor_unsafe s) := by
  unfold ckTerminalBackspace_unsafe
  rw [if_neg (not_not_intro hc), if_neg (not_not_intro hr)]

/-- in the first column of a row but the first -/
theorem backspace_first (hr : s.cursorRow ≠ 0) (hc : s.cursorColumn = 0) :
    (csFindRightNotNullCol s (dec16 s.cursorRow) < terminalWidth ∧ ckTerminalBackspace_unsafe s = none) ∨
      terminalWidth ≤ csFindRightNotNullCol s (dec16 s.cursorRow) ∧ ∃ s', ckTerminalBackspace_unsafe s = some s' ∧
        s'.cursorColumn = csFindRightNotNullCol s (dec16 s.cursorRow) := by
  unfold ckTerminalBackspace_unsafe
  rw [if_neg (not_not_intro hc), if_pos hr]
  simp only []
  by_cases hlt : csFindRightNotNullCol s (dec16 s.cursorRow) < terminalWidth
  · exact Or.inl ⟨hlt, if_pos hlt⟩
  · exact Or.inr ⟨Nat.le_of_not_lt hlt, _, if_neg hlt, rfl⟩

/-- **Behind a row that is not full** there is no return. -/
theorem backspace_endless (h : InBounds s) (hr : s.cursorRow ≠ 0) (hc : s.cursorColumn = 0)
    (hn : s.chars (s.cursorPtr - 1) = 0) : ckTerminalBackspace_unsafe s = none := by
  have hpos : 0 < s.cursorPtr := by
    rw [Terminal.cursorPtr, hc, Nat.add_zero]
    exact Nat.mul_pos (Nat.pos_of_ne_zero hr) (by decide)
  have hlast : dec16 s.cursorRow * terminalWidth + (terminalWidth - 1) = s.cursorPtr - 1 := (h.cursor.up hc hpos).eq
  have hsearch := findRightNotNull_lt_iff s.termBuffer (dec16 s.cursorRow) (terminalWidth - 1)
  rw [hlast] at hsearch
  rcases backspace_first hr hc with ⟨_, hnone⟩ | ⟨hge, _⟩
  · exact hnone
  · exact absurd (hsearch.mpr hn) (Nat.not_lt.mpr hge)

/-- **Behind a full row** the cursor is left behind the last column. -/
theorem backspace_wraps (hr : s.cursorRow ≠ 0) (hc : s.cursorColumn = 0) :
    ∀ s', ckTerminalBackspace_unsafe s = some s' → terminalWidth ≤ s'.cursorColumn := by
  intro s' h
  rcases backspace_first hr hc with ⟨_, hnone⟩ | ⟨hge, s'', hsome, hcol⟩
  · rw [hnone] at h
    cases h
  · rw [hsome] at h
    cases h
    exact hge.trans_eq hcol.symm

theorem putChar_backspace (s : Terminal) :
    ckTerminalPutChar_unsafe s 0x08 = ( ckTerminalBackspace_unsafe s).map fun s => (true, s) := rfl

/-- Backspace as a step back to `column` and a delete -/
theorem backspaces_inside (h : InBounds s) (hle : s.cursorPtr ≤ s.endPtr) (hpos : 0 < s.cursorPtr) {column : Nat}
    (hleft : CellAt s.cursorRow column (s.cursorPtr - 1)) (hback : moveBack s = { s with cursorColumn := column })
    (hcall : ckTerminalBackspace_unsafe s = some ( ckTerminalDelete_unsafe { s with cursorColumn := column })) :
    Backspaces s ↔ s.endColumn ≠ 0 ∨ s.chars s.endPtr = 0 := by
  have hptr : Terminal.cursorPtr { s with cursorColumn := column } = s.cursorPtr - 1 := hleft.eq
  have hon : InBounds { s with cursorColumn := column } := ⟨⟨rfl, hleft.width, hleft.height⟩, h.ends⟩
  have hdel := delete_inBounds hon (by rw [hptr]; exact Nat.lt_of_lt_of_le (Nat.sub_one_lt hpos.ne') hle)
  constructor
  · intro hb
    obtain ⟨s', hs', -, hon'⟩ := hb.returns
    rw [hcall] at hs'
    cases hs'
    exact hdel.mp hon'
  · intro hend
    refine ⟨⟨_, hcall, ?_, hdel.mpr hend⟩, fun s' hs' _ _ => ?_⟩
    · rw [putChar_backspace, hcall]
      rfl
    · rw [hcall] at hs'
      cases hs'
      rw [hback]
      exact ⟨rfl, ⟨rfl, rfl⟩, rfl, rfl⟩

theorem backspaces_origin (h : InBounds s) (hr : s.cursorRow = 0) (hc : s.cursorColumn = 0) : Backspaces s := by
  refine ⟨⟨_, backspace_origin hr hc, ?_, ?_⟩, fun s' _ hpos => ?_⟩
  · rw [putChar_backspace, backspace_origin hr hc]
    rfl
  · exact ⟨⟨rfl, h.cursor.width, h.cursor.height⟩, rfl, h.ends.width, h.ends.height⟩
  · have hzero : s.cursorPtr = 0 := by rw [Terminal.cursorPtr, hr, hc, Nat.zero_mul]
    exact absurd hzero hpos.ne'

/-- **When Backspace does what it is to do**: in the first column only at the origin, and elsewhere as long as the end does
not go back to a full row. -/
theorem backspaces_iff (h : InBounds s) (hle : s.cursorPtr ≤ s.endPtr) : Backspaces s ↔
    s.cursorRow = 0 ∧ s.cursorColumn = 0 ∨ s.cursorColumn ≠ 0 ∧ (s.endColumn ≠ 0 ∨ s.chars s.endPtr = 0) := by
  by_cases hc : s.cursorColumn = 0
  · by_cases hr : s.cursorRow = 0
    · exact iff_of_true (backspaces_origin h hr hc) (Or.inl ⟨hr, hc⟩)
    · refine iff_of_false (fun hb => ?_) (fun hcase => hcase.elim (fun e => hr e.1) fun e => e.1 hc)
      obtain ⟨s', hs', -, hon⟩ := hb.returns
      exact absurd hon.cursor.width (Nat.not_lt.mpr (backspace_wraps hr hc s' hs'))
  · have hback : moveBack s = { s with cursorColumn := dec16 s.cursorColumn } := by
      have hw := h.cursor.width
      have hdec : dec16 s.cursorColumn = s.cursorColumn - 1 :=
        dec16_of_pos (Nat.pos_of_ne_zero hc) (by unfold terminalWidth at hw; omega)
      rw [moveBack, if_neg hc, hdec]
    have hpos : 0 < s.cursorPtr := Nat.lt_of_lt_of_le (Nat.pos_of_ne_zero hc) (Nat.le_add_left _ _)
    rw [backspaces_inside h hle hpos (h.cursor.left hc) hback (backspace_inside hc)]
    exact ⟨fun hend => Or.inr ⟨hc, hend⟩, fun hcase => (hcase.resolve_left fun e => hc e.2).2⟩

end

/-- two characters on a cleared screen -/
def twoChars : Terminal :=
  (csAddChar (csAddChar (ckTerminalInitialize (.zero fun _ => 0)) 0x41).2 0x42).2

theorem twoChars_ptr : twoChars.cursorPtr ≤ twoChars.endPtr := by decide +kernel

theorem twoChars_inBounds : InBounds twoChars where
  cursor := ⟨rfl, by decide +kernel, by decide +kernel⟩
  ends := ⟨rfl, by decide +kernel, by decide +kernel⟩

theorem backspaces_iff_two : Backspaces twoChars ↔ twoChars.cursorRow = 0 ∧ twoChars.cursorColumn = 0 ∨
    twoChars.cursorColumn ≠ 0 ∧ (twoChars.endColumn ≠ 0 ∨ twoChars.chars twoChars.endPtr = 0) :=
  backspaces_iff twoChars_inBounds twoChars_ptr

/-- the cursor at the start of the second row -/
def newLine : Terminal := csNewLine (ckTerminalInitialize (.zero fun _ => 0))

/-- **After a newline** on a cleared screen Backspace does not return: the row above is empty. -/
theorem newline_backspace : InBounds newLine ∧ newLine.cursorPtr ≤ newLine.endPtr ∧
    ckTerminalBackspace_unsafe newLine = none ∧ ¬ Backspaces newLine := by
  have hin : InBounds newLine := ⟨⟨rfl, by decide, by decide⟩, rfl, by decide, by decide⟩
  have hnone : ckTerminalBackspace_unsafe newLine = none :=
    backspace_endless hin (by decide) (by decide) (by decide +kernel)
  refine ⟨hin, by decide, hnone, fun hb => ?_⟩
  obtain ⟨s', hs', -⟩ := hb.returns
  rw [hnone] at hs'
  cases hs'

end Clubcos
