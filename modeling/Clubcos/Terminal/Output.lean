import Clubcos.Terminal.Screen

/-!
# Output

An ideal terminal keeps all rows that have been printed and shows the last 24 of them.  `csAddChar` scrolls
before it writes the last cell of the last row, `csNewLine` when there is no row left.

* `Log`              the rows printed, and the row that is being printed;
* `Shows`            the screen against the log;
* `output_refines`   **whatever is printed after `ckTerminalCls`, the screen shows the end of the log.**
-/

set_option linter.unusedVariables false

namespace Clubcos
open Word

structure Log where
  rows : List (List Byte)
  line : List Byte

def Log.empty : Log := ⟨[], []⟩

def Log.put (log : Log) (c : Byte) : Log :=
  if c = 0x0a then ⟨log.rows ++ [log.line], []⟩
  else if c = 0 then log
  else if log.line.length + 1 = terminalWidth then ⟨log.rows ++ [log.line ++ [c]], []⟩
  else ⟨log.rows, log.line ++ [c]⟩

def Log.all (log : Log) : List (List Byte) := log.rows ++ [log.line]

/-- the last rows, as many as the screen has -/
def Log.visible (log : Log) : List (List Byte) := log.all.drop (log.all.length - terminalHeight)

/-- the character in a column of a row, NUL where there is none -/
def cellOf (rows : List (List Byte)) (row column : Nat) : Byte := (rows[row]?.bind (·[column]?)).getD 0

/-- the rows 0..23 hold the visible rows, and the cursor and the end are behind the last character -/
structure Shows (s : Terminal) (log : Log) : Prop where
  chars : ∀ row column, row < terminalHeight → column < terminalWidth →
    s.chars (row * terminalWidth + column) = cellOf log.visible row column
  cursorRow : s.cursorRow = log.visible.length - 1
  cursorColumn : s.cursorColumn = log.line.length
  endRow : s.endRow = s.cursorRow
  endColumn : s.endColumn = s.cursorColumn
  width : log.line.length < terminalWidth

/-! ## the rows of a log -/

/-- the number of rows that have been scrolled off -/
def Log.top (log : Log) : Nat := log.rows.length - (terminalHeight - 1)

theorem Log.visible_cell (log : Log) (row column : Nat) :
    cellOf log.visible row column = cellOf log.all (log.top + row) column := by
  have htop : log.all.length - terminalHeight = log.top := by
    rw [Log.all, List.length_append, List.length_singleton]
    rfl
  rw [cellOf, cellOf, Log.visible, List.getElem?_drop, htop]

theorem Log.visible_length (log : Log) : log.visible.length - 1 = min log.rows.length (terminalHeight - 1) := by
  unfold terminalHeight
  rw [Log.visible, Log.all, List.length_drop, List.length_append, List.length_singleton]
  unfold terminalHeight
  omega

/-- an empty row at the end has nothing to show -/
theorem cellOf_snoc_nil (rows : List (List Byte)) (row column : Nat) :
    cellOf (rows ++ [[]]) row column = cellOf rows row column := by
  unfold cellOf
  rcases Nat.lt_trichotomy row rows.length with h | rfl | h
  · rw [List.getElem?_append_left h]
  · rw [List.getElem?_concat_length, List.getElem?_eq_none (Nat.le_refl _)]
    rfl
  · rw [List.getElem?_eq_none (by rw [List.length_append, List.length_singleton]; exact h),
      List.getElem?_eq_none (Nat.le_of_lt h)]

theorem cellOf_beyond {rows : List (List Byte)} {row : Nat} (h : rows.length ≤ row) (column : Nat) :
    cellOf rows row column = 0 := by
  rw [cellOf, List.getElem?_eq_none h]
  rfl

/-- one more character in the last row -/
theorem cellOf_snoc (rows : List (List Byte)) (line : List Byte) (c : Byte) (row column : Nat) :
    cellOf (rows ++ [line ++ [c]]) row column =
      if row = rows.length ∧ column = line.length then c else cellOf (rows ++ [line]) row column := by
  unfold cellOf
  rcases Nat.lt_trichotomy row rows.length with h | rfl | h
  · rw [if_neg fun e => Nat.ne_of_lt h e.1, List.getElem?_append_left h, List.getElem?_append_left h]
  · rw [List.getElem?_concat_length, List.getElem?_concat_length]
    show ((line ++ [c])[column]?).getD 0 = if _ then c else ((line)[column]?).getD 0
    rcases Nat.lt_trichotomy column line.length with h | rfl | h
    · rw [if_neg fun e => Nat.ne_of_lt h e.2, List.getElem?_append_left h]
    · rw [if_pos ⟨rfl, rfl⟩, List.getElem?_concat_length]
      rfl
    · rw [if_neg fun e => Nat.ne_of_gt h e.2, List.getElem?_eq_none (Nat.le_of_lt h),
        List.getElem?_eq_none (by rw [List.length_append, List.length_singleton]; exact h)]
  · rw [if_neg fun e => Nat.ne_of_gt h e.1, List.getElem?_eq_none (by rw [List.length_append, List.length_singleton]; exact h),
      List.getElem?_eq_none (by rw [List.length_append, List.length_singleton]; exact h)]

/-! ## the screen after a scroll -/

/-- the characters of the rows 0..23 are those of the rows `top`.. of a list -/
def ShowsFrom (s : Terminal) (rows : List (List Byte)) (top : Nat) : Prop :=
  ∀ row column, row < terminalHeight → column < terminalWidth →
    s.chars (row * terminalWidth + column) = cellOf rows (top + row) column

theorem ShowsFrom.scroll {s : Terminal} {rows : List (List Byte)} {top : Nat} (h : ShowsFrom s rows top)
    (hlen : rows.length ≤ top + terminalHeight) : ShowsFrom (csScrollScreen s) rows (top + 1) := by
  intro row column hr hc
  have hrow := h (row + 1) column
  unfold terminalHeight terminalWidth at *
  rw [chars_scroll]
  unfold terminalHeight terminalWidth
  by_cases e : row + 1 < 24
  · rw [if_pos (by omega), Nat.add_assoc top 1 row, Nat.add_comm 1 row, ← hrow e hc]
    congr 1
    omega
  · rw [if_neg (by omega), if_pos (by omega), cellOf_beyond (by omega)]

/-- a character at the end of the last row -/
theorem ShowsFrom.put {s : Terminal} {rows : List (List Byte)} {line : List Byte} {top : Nat} {c : Byte}
    (h : ShowsFrom s (rows ++ [line]) top) (htop : top ≤ rows.length) (hline : line.length < terminalWidth)
    (hrow : s.cursorRow = rows.length - top) (hcol : s.cursorColumn = line.length) (hend : s.endPtr = s.cursorPtr) :
    ShowsFrom (putCell s c) (rows ++ [line ++ [c]]) top := by
  intro row column hr hc
  have hold := h row column hr hc
  have hzero : cellCount s.cursorPtr s.endPtr = 0 := by
    rw [hend]
    unfold cellCount
    omega
  rw [chars_putCell, hzero, memmove_zero, cellOf_snoc]
  have hptr : s.cursorPtr = (rows.length - top) * terminalWidth + line.length := by
    rw [Terminal.cursorPtr, hrow, hcol]
  unfold terminalHeight terminalWidth at *
  by_cases e : top + row = rows.length ∧ column = line.length
  · rw [if_pos e, hptr, show row * 80 + column = (rows.length - top) * 80 + line.length by omega, Function.update_self]
  · rw [if_neg e, Function.update_of_ne (by omega), hold]

/-! ## one character -/

theorem Shows.from {s : Terminal} {log : Log} (h : Shows s log) : ShowsFrom s log.all log.top := fun row column hr hc =>
  (h.chars row column hr hc).trans (log.visible_cell row column)

theorem Shows.intro {s : Terminal} {log : Log} (h : ShowsFrom s log.all log.top)
    (hrow : s.cursorRow = min log.rows.length (terminalHeight - 1)) (hcol : s.cursorColumn = log.line.length)
    (hendRow : s.endRow = s.cursorRow) (hendCol : s.endColumn = s.cursorColumn)
    (hw : log.line.length < terminalWidth) : Shows s log :=
  ⟨fun row column hr hc => (h row column hr hc).trans (log.visible_cell row column).symm,
    hrow.trans log.visible_length.symm, hcol, hendRow, hendCol, hw⟩

theorem Shows.row {s : Terminal} {log : Log} (h : Shows s log) :
    s.cursorRow = min log.rows.length (terminalHeight - 1) := h.cursorRow.trans log.visible_length

theorem Shows.onScreen {s : Terminal} {log : Log} (h : Shows s log) :
    s.cursorRow < terminalHeight ∧ s.cursorColumn < terminalWidth := by
  rw [h.row, h.cursorColumn]
  exact ⟨Nat.lt_of_le_of_lt (Nat.min_le_right _ _) (by decide), h.width⟩

theorem Shows.endPtr {s : Terminal} {log : Log} (h : Shows s log) : s.endPtr = s.cursorPtr := by
  rw [Terminal.endPtr, h.endRow, h.endColumn]
  rfl

/-- the cells that no output writes to -/
def SameBelow (s s' : Terminal) : Prop := ∀ i, terminalHeight * terminalWidth ≤ i → s'.termBuffer i = s.termBuffer i

theorem width_pos : 0 < terminalWidth := by decide

theorem ShowsFrom.congr {s s' : Terminal} {rows : List (List Byte)} {top : Nat} (h : ShowsFrom s rows top)
    (hs : s'.termBuffer = s.termBuffer) : ShowsFrom s' rows top := by
  intro row column hr hc
  rw [Terminal.chars, hs]
  exact h row column hr hc

theorem csNewLine_shows {s : Terminal} {log : Log} (h : Shows s log) :
    Shows (csNewLine s) ⟨log.rows ++ [log.line], []⟩ ∧ SameBelow s (csNewLine s) := by
  have hrow := h.row
  have hlen : (log.rows ++ [log.line]).length = log.rows.length + 1 := List.length_append
  have hinc : inc16 s.endRow = s.cursorRow + 1 := by
    rw [h.endRow]
    exact inc16_of_lt (by have := h.onScreen.1; unfold terminalHeight at this; omega)
  have htop : log.top = log.rows.length - (terminalHeight - 1) := rfl
  have htop' : (⟨log.rows ++ [log.line], []⟩ : Log).top = (log.rows ++ [log.line]).length - (terminalHeight - 1) := rfl
  unfold csNewLine
  simp only [hinc]
  by_cases e : s.cursorRow + 1 = terminalHeight
  · rw [if_pos e]
    let s₁ : Terminal := { s with endColumn := 0, endRow := s.cursorRow + 1 }
    have hdec : dec16 (s.cursorRow + 1) = s.cursorRow :=
      dec16_of_pos (Nat.succ_pos _) (by unfold terminalHeight at e; omega)
    have hscroll : ShowsFrom (csScrollScreen s₁) (log.rows ++ [log.line]) (log.top + 1) := by
      refine (h.from.congr rfl).scroll ?_
      rw [Log.all, hlen, htop]
      unfold terminalHeight at e hrow ⊢
      omega
    unfold terminalHeight at *
    refine ⟨Shows.intro ?_ ?_ rfl rfl rfl width_pos, fun i hi => (scroll_below s₁ hi).trans rfl⟩
    · rw [htop', show (log.rows ++ [log.line]).length - (24 - 1) = log.top + 1 by omega]
      exact ShowsFrom.congr (fun row column hr hc => (hscroll row column hr hc).trans (cellOf_snoc_nil _ _ _).symm) rfl
    · show dec16 (s.cursorRow + 1) = min (log.rows ++ [log.line]).length (terminalHeight - 1)
      unfold terminalHeight
      omega
  · rw [if_neg e]
    unfold terminalHeight at *
    refine ⟨Shows.intro ?_ ?_ rfl rfl rfl width_pos, fun i _ => rfl⟩
    · rw [htop', show (log.rows ++ [log.line]).length - (24 - 1) = log.top by omega]
      exact ShowsFrom.congr (fun row column hr hc => (h.from row column hr hc).trans (cellOf_snoc_nil _ _ _).symm) rfl
    · show s.cursorRow + 1 = min (log.rows ++ [log.line]).length (terminalHeight - 1)
      unfold terminalHeight
      omega

theorem putCell_sameBelow {s : Terminal} {c : Byte} (hend : s.endPtr = s.cursorPtr)
    (hlt : s.cursorPtr < terminalHeight * terminalWidth) : SameBelow s (putCell s c) := by
  intro i hi
  have hzero : cellCount s.cursorPtr s.endPtr = 0 := by
    rw [hend]
    unfold cellCount
    omega
  show Function.update (memmove _ _ _ _) _ _ i = _
  rw [hzero, memmove_zero, Function.update_of_ne (Nat.ne_of_gt (Nat.lt_of_lt_of_le hlt hi))]

/-- a character that no row is full with -/
theorem putCell_shows {s : Terminal} {log : Log} (h : Shows s log) (c : Byte)
    (hroom : log.line.length + 1 ≠ terminalWidth) :
    Shows (putCell s c) ⟨log.rows, log.line ++ [c]⟩ ∧ SameBelow s (putCell s c) := by
  have hrow := h.row
  have hcol := h.cursorColumn
  have hw := h.width
  obtain ⟨hr, hc⟩ := h.onScreen
  have hnext : nextCell s.cursorRow s.cursorColumn = (s.cursorRow, s.cursorColumn + 1) := by
    rw [nextCell_eq hr hc, hcol, if_neg hroom]
  have hends : nextCell s.endRow s.endColumn = (s.cursorRow, s.cursorColumn + 1) := by
    rw [h.endRow, h.endColumn, hnext]
  refine ⟨Shows.intro ?_ ?_ ?_ ?_ ?_ ?_, putCell_sameBelow h.endPtr ?_⟩
  · exact h.from.put (Nat.sub_le _ _) hw (by rw [hrow, Log.top]; omega) hcol h.endPtr
  · show (nextCell s.cursorRow s.cursorColumn).1 = _
    rw [hnext]
    exact hrow
  · show (nextCell s.cursorRow s.cursorColumn).2 = (log.line ++ [c]).length
    rw [hnext, List.length_append, hcol]
    rfl
  · show (nextCell s.endRow s.endColumn).1 = (nextCell s.cursorRow s.cursorColumn).1
    rw [hends, hnext]
  · show (nextCell s.endRow s.endColumn).2 = (nextCell s.cursorRow s.cursorColumn).2
    rw [hends, hnext]
  · show (log.line ++ [c]).length < _
    rw [List.length_append, List.length_singleton]
    omega
  · unfold Terminal.cursorPtr terminalHeight terminalWidth at *
    omega

/-- the last character of a row, in a row that is not the last one -/
theorem putCell_wraps {s : Terminal} {rows : List (List Byte)} {line : List Byte} {top : Nat} {c : Byte}
    (h : ShowsFrom s (rows ++ [line]) top) (htop : top ≤ rows.length) (hfull : line.length + 1 = terminalWidth)
    (hrow : s.cursorRow = rows.length - top) (hcol : s.cursorColumn = line.length) (hendRow : s.endRow = s.cursorRow)
    (hendCol : s.endColumn = s.cursorColumn) (hlast : s.cursorRow + 1 < terminalHeight) :
    ShowsFrom (putCell s c) ((rows ++ [line ++ [c]]) ++ [[]]) top ∧ (putCell s c).cursorRow = s.cursorRow + 1 ∧
      (putCell s c).cursorColumn = 0 ∧ (putCell s c).endRow = (putCell s c).cursorRow ∧
      (putCell s c).endColumn = (putCell s c).cursorColumn ∧ SameBelow s (putCell s c) := by
  have hend : s.endPtr = s.cursorPtr := by
    rw [Terminal.endPtr, hendRow, hendCol]
    rfl
  have hw : line.length < terminalWidth := by omega
  have hnext : nextCell s.cursorRow s.cursorColumn = (s.cursorRow + 1, 0) := by
    rw [nextCell_eq (by omega) (hcol ▸ hw), hcol, if_pos hfull]
  have hends : nextCell s.endRow s.endColumn = (s.cursorRow + 1, 0) := by rw [hendRow, hendCol, hnext]
  refine ⟨fun row column hr hc => ?_, congrArg Prod.fst hnext, congrArg Prod.snd hnext,
    congrArg Prod.fst (hends.trans hnext.symm), congrArg Prod.snd (hends.trans hnext.symm), putCell_sameBelow hend ?_⟩
  · rw [cellOf_snoc_nil]
    exact h.put htop hw hrow hcol hend row column hr hc
  · unfold Terminal.cursorPtr terminalHeight terminalWidth at *
    omega

theorem csAddChar_shows {s : Terminal} {log : Log} (h : Shows s log) {c : Byte} (hnl : c ≠ 0x0a) (h0 : c ≠ 0) :
    ∃ s', csAddChar s c = (true, s') ∧ Shows s' (log.put c) ∧ SameBelow s s' := by
  have hrow := h.row
  have hcol := h.cursorColumn
  have hw := h.width
  unfold Log.put csAddChar
  rw [if_neg hnl, if_neg h0]
  by_cases hfull : log.line.length + 1 = terminalWidth
  · rw [if_pos hfull]
    have hcolumn : s.endColumn = terminalWidth - 1 := by rw [h.endColumn, hcol]; omega
    by_cases hlast : s.cursorRow = terminalHeight - 1
    · -- the screen scrolls first
      have hpos : 0 < s.cursorRow := by
        rw [hlast]
        decide
      have hdec : dec16 s.cursorRow = s.cursorRow - 1 :=
        dec16_of_pos hpos (by unfold terminalHeight at hlast; omega)
      rw [if_pos ⟨h.endRow.trans hlast, hcolumn⟩, if_neg (Nat.ne_of_gt hpos)]
      have hmany : terminalHeight - 1 ≤ log.rows.length := by omega
      let s₁ : Terminal := { csScrollScreen s with endRow := dec16 s.endRow, cursorRow := dec16 s.cursorRow }
      have hscroll : ShowsFrom (csScrollScreen s) (log.rows ++ [log.line]) (log.top + 1) := by
        refine h.from.scroll ?_
        rw [Log.all, List.length_append, List.length_singleton, Log.top]
        omega
      have htop : log.top = log.rows.length - (terminalHeight - 1) := rfl
      unfold terminalHeight at htop hlast hmany
      obtain ⟨h1, h2, h3, h4, h5, h6⟩ := putCell_wraps (s := s₁) (c := c) (hscroll.congr rfl) (by omega)
        hfull (by show dec16 s.cursorRow = _; omega) hcol (congrArg dec16 h.endRow) h.endColumn
        (by show dec16 s.cursorRow + 1 < terminalHeight; unfold terminalHeight; omega)
      have hlen : (log.rows ++ [log.line ++ [c]]).length = log.rows.length + 1 := List.length_append
      have hbuffer : s₁.termBuffer = (csScrollScreen s).termBuffer := rfl
      have hbelow : SameBelow s s₁ := fun i hi => (congrFun hbuffer i).trans (scroll_below s hi)
      refine ⟨_, rfl, Shows.intro ?_ ?_ h3 h4 h5 width_pos, fun i hi => (h6 i hi).trans (hbelow i hi)⟩
      · have htop' : (⟨log.rows ++ [log.line ++ [c]], []⟩ : Log).top = log.top + 1 := by
          show (log.rows ++ [log.line ++ [c]]).length - (terminalHeight - 1) = _
          unfold terminalHeight
          omega
        rw [htop']
        exact h1.congr rfl
      · refine h2.trans ?_
        show dec16 s.cursorRow + 1 = min (log.rows ++ [log.line ++ [c]]).length (terminalHeight - 1)
        unfold terminalHeight
        omega
    · rw [if_neg fun hc => hlast (h.endRow.symm.trans hc.1)]
      have hsmall := h.onScreen.1
      obtain ⟨h1, h2, h3, h4, h5, h6⟩ := putCell_wraps (c := c) h.from (Nat.sub_le _ _) hfull
        (by rw [hrow, Log.top]; omega) hcol h.endRow h.endColumn (by omega)
      have hlen : (log.rows ++ [log.line ++ [c]]).length = log.rows.length + 1 := List.length_append
      refine ⟨_, rfl, Shows.intro ?_ ?_ h3 h4 h5 width_pos, h6⟩
      · have htop : (⟨log.rows ++ [log.line ++ [c]], []⟩ : Log).top = log.top := by
          show (log.rows ++ [log.line ++ [c]]).length - _ = log.rows.length - _
          omega
        rw [htop]
        exact h1
      · refine h2.trans ?_
        show s.cursorRow + 1 = min (log.rows ++ [log.line ++ [c]]).length (terminalHeight - 1)
        omega
  · rw [if_neg hfull, if_neg fun hc => hfull (by rw [← hcol, ← h.endColumn, hc.2]; decide)]
    obtain ⟨h1, h2⟩ := putCell_shows h c hfull
    exact ⟨_, rfl, ⟨h1.chars, h1.cursorRow, h1.cursorColumn, h1.endRow, h1.endColumn, h1.width⟩, h2⟩

/-- **One character printed.** -/
theorem putChar_shows {s : Terminal} {log : Log} (h : Shows s log) {c : Byte} (hb : c ≠ 0x08) :
    ∃ s', ckTerminalPutChar_unsafe s c = some (true, s') ∧ Shows s' (log.put c) ∧ SameBelow s s' := by
  unfold ckTerminalPutChar_unsafe
  by_cases hnl : c = 0x0a
  · rw [if_pos hnl]
    obtain ⟨h1, h2⟩ := csNewLine_shows h
    refine ⟨_, rfl, ?_, h2⟩
    rw [Log.put, if_pos hnl]
    exact h1
  · rw [if_neg hnl, if_neg hb]
    by_cases h0 : c = 0
    · rw [if_neg (not_not_intro h0)]
      refine ⟨s, rfl, ?_, fun _ _ => rfl⟩
      rw [Log.put, if_neg hnl, if_pos h0]
      exact h
    · rw [if_pos h0]
      obtain ⟨s', e, h1, h2⟩ := csAddChar_shows h hnl h0
      exact ⟨s', congrArg some e, h1, h2⟩

/-! ## a whole output -/

/-- the characters of a string printed, up to its end -/
theorem printString_shows : ∀ {str : List Byte} {s : Terminal} {log : Log}, Shows s log →
    0x08 ∉ str.takeWhile (· ≠ 0) → ∃ s', ckTerminalPrintString s str = some s' ∧
      Shows s' ((str.takeWhile (· ≠ 0)).foldl Log.put log) ∧ SameBelow s s'
  | [], s, log, h, _ => ⟨s, rfl, h, fun _ _ => rfl⟩
  | c :: str, s, log, h, hb => by
    unfold ckTerminalPrintString
    by_cases h0 : c = 0
    · rw [if_neg (not_not_intro h0), List.takeWhile_cons_of_neg (p := fun c => decide (c ≠ 0)) (fun e => of_decide_eq_true e h0)]
      exact ⟨s, rfl, h, fun _ _ => rfl⟩
    · rw [List.takeWhile_cons_of_pos (p := fun c => decide (c ≠ 0)) (decide_eq_true h0)] at hb ⊢
      obtain ⟨hc, hstr⟩ := not_or.mp fun e => hb (List.mem_cons.mpr e)
      obtain ⟨s₁, e₁, h₁, hb₁⟩ := putChar_shows h (Ne.symm hc)
      obtain ⟨s₂, e₂, h₂, hb₂⟩ := printString_shows h₁ hstr
      refine ⟨s₂, ?_, h₂, fun i hi => (hb₂ i hi).trans (hb₁ i hi)⟩
      rw [if_pos h0, e₁]
      exact e₂

theorem cls_shows (s : Terminal) : Shows ( ckTerminalCls_unsafe s) Log.empty ∧ SameBelow s ( ckTerminalCls_unsafe s) := by
  refine ⟨Shows.intro (fun row column hr hc => ?_) rfl rfl rfl rfl width_pos, fun i hi => ?_⟩
  · have hin : 0 ≤ row * terminalWidth + column ∧ row * terminalWidth + column < 0 + terminalHeight * terminalWidth := by
      unfold terminalHeight terminalWidth at *
      omega
    have hnull : cellOf Log.empty.all (Log.empty.top + row) column = 0 := cellOf_snoc_nil [] _ _
    rw [hnull]
    show Cell.char (memset_2 _ _ _ _ _) = 0
    rw [memset_2, if_pos hin, char_entry]
  · exact if_neg fun h => Nat.not_lt.mpr hi ((Nat.zero_add (terminalHeight * terminalWidth)) ▸ h.2)

/-- a call of `ckTerminalPutChar` or of `ckTerminalPrintString` -/
inductive Print where
  | char (c : Byte)
  | string (str : List Byte)

def Print.bytes : Print → List Byte
  | .char c => [c]
  | .string str => str.takeWhile (· ≠ 0)

/-- the calls of an output, with the values that `ckTerminalPutChar` returns -/
def printAll : Terminal → List Print → Option (List Bool × Terminal)
  | s, [] => some ([], s)
  | s, .char c :: prints => do
    let (ret, s) ← ckTerminalPutChar_unsafe s c
    let (rets, s) ← printAll s prints
    return (ret :: rets, s)
  | s, .string str :: prints => do
    let s ← ckTerminalPrintString s str
    printAll s prints

def Log.print (log : Log) (prints : List Print) : Log := (prints.flatMap Print.bytes).foldl Log.put log

theorem printAll_shows : ∀ {prints : List Print} {s : Terminal} {log : Log}, Shows s log →
    (∀ p ∈ prints, 0x08 ∉ p.bytes) → ∃ rets s', printAll s prints = some (rets, s') ∧ (∀ ret ∈ rets, ret = true) ∧
      Shows s' (log.print prints) ∧ SameBelow s s'
  | [], s, log, h, _ => ⟨[], s, rfl, List.forall_mem_nil _, h, fun _ _ => rfl⟩
  | .char c :: prints, s, log, h, hb => by
    obtain ⟨hc, hprints⟩ := List.forall_mem_cons.mp hb
    obtain ⟨s₁, e₁, h₁, hb₁⟩ := putChar_shows h (c := c) fun e => hc (List.mem_singleton.mpr e.symm)
    obtain ⟨rets, s₂, e₂, hrets, h₂, hb₂⟩ := printAll_shows h₁ hprints
    refine ⟨true :: rets, s₂, ?_, List.forall_mem_cons.mpr ⟨rfl, hrets⟩, h₂, fun i hi => (hb₂ i hi).trans (hb₁ i hi)⟩
    rw [printAll, e₁]
    show (printAll s₁ prints).bind _ = _
    rw [e₂]
    rfl
  | .string str :: prints, s, log, h, hb => by
    obtain ⟨hstr, hprints⟩ := List.forall_mem_cons.mp hb
    obtain ⟨s₁, e₁, h₁, hb₁⟩ := printString_shows h hstr
    obtain ⟨rets, s₂, e₂, hrets, h₂, hb₂⟩ := printAll_shows h₁ hprints
    refine ⟨rets, s₂, ?_, hrets, ?_, fun i hi => (hb₂ i hi).trans (hb₁ i hi)⟩
    · rw [printAll, e₁]
      exact e₂
    · rw [Log.print, List.flatMap_cons, List.foldl_append]
      exact h₂

/-- **The screen shows the end of the log**, and the status row is as it was. -/
theorem output_refines (s : Terminal) (prints : List Print) (hb : ∀ p ∈ prints, 0x08 ∉ p.bytes) :
    ∃ rets s', printAll ( ckTerminalCls_unsafe s) prints = some (rets, s') ∧ (∀ ret ∈ rets, ret = true) ∧
      Shows s' (Log.empty.print prints) ∧ s'.cursorRow < terminalHeight ∧ s'.cursorColumn < terminalWidth ∧
      ∀ i, terminalHeight * terminalWidth ≤ i → s'.termBuffer i = s.termBuffer i := by
  obtain ⟨hcls, hbelow⟩ := cls_shows s
  obtain ⟨rets, s', e, hrets, h, hb'⟩ := printAll_shows hcls hb
  exact ⟨rets, s', e, hrets, h, h.onScreen.1, h.onScreen.2, fun i hi => (hb' i hi).trans (hbelow i hi)⟩

theorem output_refines_hello :
    ∃ rets s', printAll ( ckTerminalCls_unsafe (Terminal.zero fun _ => 0x0741)) [.string [0x68, 0x69, 0, 0x08], .char 0x0a] =
        some (rets, s') ∧ (∀ ret ∈ rets, ret = true) ∧
      Shows s' (Log.empty.print [.string [0x68, 0x69, 0, 0x08], .char 0x0a]) ∧ s'.cursorRow < terminalHeight ∧
      s'.cursorColumn < terminalWidth ∧ ∀ i, terminalHeight * terminalWidth ≤ i → s'.termBuffer i = 0x0741 :=
  output_refines (Terminal.zero fun _ => 0x0741) [.string [0x68, 0x69, 0, 0x08], .char 0x0a] (by decide)

end Clubcos
