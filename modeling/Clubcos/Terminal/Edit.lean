import Mathlib.Data.List.Basic
import Mathlib.Data.List.TakeWhile
import Clubcos.Terminal.Lines
import Clubcos.Terminal.Output

/-!
# Editing a line

The line that is typed is kept twice: in `s_LineBufArray`, and in the cells of the screen from where the input
starts.  Keys may come anywhere in it.

* `Editor`           a text with a position in it, behind what stands on the screen already;
* `Edits`            the buffer and the screen against the editor;
* `editor_mirrors`   **the buffer, the screen and the cursor are those of the editor.**
-/

set_option linter.unusedVariables false

namespace Clubcos
open Word

-- unification is not to compute with the 16-bit counters
attribute [local irreducible] dec16

def screenCells : Nat := terminalHeight * terminalWidth

/-- `before` are the characters on the screen in front of the input -/
structure Editor where
  before : List Byte
  text : List Byte
  pos : Nat

/-- The screen moves up one row when the input would reach its last cell. -/
def Editor.insert (e : Editor) (c : Byte) : Editor :=
  if e.text.length = lineBufferSize then e
  else
    ⟨if e.before.length + e.text.length + 1 = screenCells then e.before.drop terminalWidth else e.before,
      e.text.insertIdx e.pos c, e.pos + 1⟩

def Editor.key (e : Editor) (c : Byte) : Editor :=
  if c ∈ casciiDelete then { e with text := e.text.eraseIdx e.pos }
  else if c ∈ casciiLeft then { e with pos := e.pos - 1 }
  else if c ∈ casciiRight then { e with pos := min (e.pos + 1) e.text.length }
  else e.insert c

def EditKey (c : Byte) : Prop := Printable c ∨ c ∈ casciiDelete ∨ c ∈ casciiLeft ∨ c ∈ casciiRight

instance (c : Byte) : Decidable (EditKey c) := inferInstanceAs (Decidable (_ ∨ _))

/-- the input starts at the cursor -/
def Editor.start (s : Terminal) : Editor := ⟨(List.range s.cursorPtr).map s.chars, [], 0⟩

structure Mirrors (s : Terminal) (e : Editor) : Prop where
  line : s.lineBufArray.Contains e.text lineBufferSize
  ptr : s.lineBufPtr = e.pos
  before : Holds s.chars e.before
  /-- the cells from the start of the input to the end position -/
  cells : (List.range' e.before.length (s.endPtr - e.before.length)).map s.chars = e.text
  cursor : s.cursorPtr = e.before.length + e.pos
  cursorOn : s.cursorRow < terminalHeight ∧ s.cursorColumn < terminalWidth
  endOn : s.endRow < terminalHeight ∧ s.endColumn < terminalWidth

/-! ## positions -/

/-- a row and a column, as a position in row-major order -/
structure CellAt (row column ptr : Nat) : Prop where
  eq : row * terminalWidth + column = ptr
  width : column < terminalWidth
  height : row < terminalHeight

section
variable {row column ptr : Nat} (h : CellAt row column ptr)
include h

theorem CellAt.next (hp : ptr + 1 < screenCells) : CellAt (nextCell row column).1 (nextCell row column).2 (ptr + 1) := by
  obtain ⟨h1, h2⟩ := nextCell_ptr h.height h.width
  rw [h.eq] at h1
  refine ⟨h1, h2, ?_⟩
  unfold screenCells terminalHeight terminalWidth at *
  omega

theorem CellAt.left (hc : column ≠ 0) : CellAt row (dec16 column) (ptr - 1) := by
  have hw := h.width
  have he := h.eq
  have hdec : dec16 column = column - 1 := dec16_of_pos (Nat.pos_of_ne_zero hc) (by unfold terminalWidth at hw; omega)
  rw [hdec]
  exact ⟨by omega, by omega, h.height⟩

theorem CellAt.up (hc : column = 0) (hp : 0 < ptr) : CellAt (dec16 row) (terminalWidth - 1) (ptr - 1) := by
  have hh := h.height
  have he := h.eq
  unfold terminalWidth at he
  have hdec : dec16 row = row - 1 := dec16_of_pos (by omega) (by unfold terminalHeight at hh; omega)
  rw [hdec]
  refine ⟨?_, by decide, by omega⟩
  unfold terminalWidth
  omega

/-- the same place after the screen has moved up -/
theorem CellAt.scroll (hp : terminalWidth ≤ ptr) : CellAt (dec16 row) column (ptr - terminalWidth) := by
  have hh := h.height
  have he := h.eq
  have hw := h.width
  unfold terminalWidth at he hw hp
  have hdec : dec16 row = row - 1 := dec16_of_pos (by omega) (by unfold terminalHeight at hh; omega)
  rw [hdec]
  refine ⟨?_, h.width, by omega⟩
  unfold terminalWidth
  omega

theorem CellAt.last_iff : row = terminalHeight - 1 ∧ column = terminalWidth - 1 ↔ ptr + 1 = screenCells := by
  have hh := h.height
  have hw := h.width
  have he := h.eq
  unfold screenCells terminalHeight terminalWidth at *
  omega

end

/-! ## what fills the screen -/

/-- the characters from the top of the screen, and nothing behind them -/
structure Fills (m : Nat → Byte) (l : List Byte) : Prop where
  holds : Holds m l
  rest : ∀ i, l.length ≤ i → i < screenCells → m i = 0

section
variable {m : Nat → Byte} {l : List Byte} (h : Fills m l)
include h

theorem Fills.insert {k : Nat} (hk : k ≤ l.length) (c : Byte) :
    Fills (Function.update (memmove m (k + 1) k (l.length - k)) k c) (l.insertIdx k c) := by
  refine ⟨h.holds.insert hk c, fun i hi hlt => ?_⟩
  rw [List.length_insertIdx_of_le_length hk] at hi
  rw [Function.update_of_ne (by omega), memmove, if_neg (by omega)]
  exact h.rest i (by omega) hlt

/-- the cell behind the end is cleared -/
theorem Fills.erase {k : Nat} (hk : k < l.length) (hl : l.length < screenCells) :
    Fills (Function.update (memmove m k (k + 1) (l.length - k)) l.length 0) (l.eraseIdx k) := by
  have hlen := List.length_eraseIdx_of_lt hk
  refine ⟨(h.holds.erase hk (by omega)).update (by omega) 0, fun i hi hlt => ?_⟩
  rw [hlen] at hi
  by_cases e : i = l.length
  · rw [e, Function.update_self]
  · rw [Function.update_of_ne e, memmove]
    by_cases e' : i < l.length
    · rw [if_pos (by omega)]
      exact h.rest _ (by omega) (by omega)
    · rw [if_neg (by omega)]
      exact h.rest i (by omega) hlt

end

theorem Fills.scroll {s : Terminal} {l : List Byte} (h : Fills s.chars l) (hl : l.length ≤ screenCells) :
    Fills (csScrollScreen s).chars (l.drop terminalWidth) := by
  have hrows : (terminalHeight - 1) * terminalWidth + terminalWidth = screenCells := rfl
  refine ⟨fun i hi => ?_, fun i hi hlt => ?_⟩
  · rw [List.length_drop] at hi
    rw [chars_scroll, if_pos (by omega), List.getElem_drop, h.holds _ (by omega)]
    congr 1
    exact Nat.add_comm _ _
  · rw [List.length_drop] at hi
    rw [chars_scroll]
    by_cases e : i < (terminalHeight - 1) * terminalWidth
    · rw [if_pos e]
      exact h.rest _ (by omega) (by omega)
    · rw [if_neg e]
      exact if_pos hlt

/-! ## one character -/

section
variable {s : Terminal} {l : List Byte} {k : Nat} (h : Fills s.chars l) (hc : CellAt s.cursorRow s.cursorColumn k)
  (he : CellAt s.endRow s.endColumn l.length) (hk : k ≤ l.length)
include h hc he hk

theorem putCell_fills (hroom : l.length + 1 < screenCells) (c : Byte) :
    Fills (putCell s c).chars (l.insertIdx k c) ∧
      CellAt (putCell s c).cursorRow (putCell s c).cursorColumn (k + 1) ∧
      CellAt (putCell s c).endRow (putCell s c).endColumn (l.length + 1) := by
  have hptr : s.cursorPtr = k := hc.eq
  have hend : s.endPtr = l.length := he.eq
  have hcells : screenCells < 2^31 := by decide
  refine ⟨?_, hc.next (by omega), he.next hroom⟩
  rw [chars_putCell, hptr, hend, cellCount_eq hk (by omega)]
  exact h.insert hk c

/-- the screen moves up before the last cell is written -/
theorem csAddChar_fills_last (hlast : l.length + 1 = screenCells) (hw : terminalWidth ≤ k) (c : Byte) :
    ∃ s', csAddChar s c = (true, s') ∧ Fills s'.chars ((l.drop terminalWidth).insertIdx (k - terminalWidth) c) ∧
      CellAt s'.cursorRow s'.cursorColumn (k - terminalWidth + 1) ∧
      CellAt s'.endRow s'.endColumn (l.length - terminalWidth + 1) := by
  have hrow : s.cursorRow ≠ 0 := fun e => by
    have hwidth := hc.width
    have heq := hc.eq
    rw [e, Nat.zero_mul] at heq
    omega
  let s₁ : Terminal := { csScrollScreen s with endRow := dec16 s.endRow, cursorRow := dec16 s.cursorRow }
  have hbuffer : s₁.termBuffer = (csScrollScreen s).termBuffer := rfl
  have hchars : s₁.chars = (csScrollScreen s).chars := congrArg (Cell.char ∘ ·) hbuffer
  have hlen : (l.drop terminalWidth).length = l.length - terminalWidth := List.length_drop
  have hpos : 0 < terminalWidth := by decide
  have hcursor : CellAt s₁.cursorRow s₁.cursorColumn (k - terminalWidth) := by
    show CellAt (dec16 s.cursorRow) s.cursorColumn _
    exact hc.scroll hw
  have hends : CellAt s₁.endRow s₁.endColumn (l.drop terminalWidth).length := by
    show CellAt (dec16 s.endRow) s.endColumn _
    rw [hlen]
    exact he.scroll (by omega)
  have hfills : Fills s₁.chars (l.drop terminalWidth) := by
    rw [hchars]
    exact h.scroll (by omega)
  obtain ⟨h1, h2, h3⟩ := putCell_fills (s := s₁) hfills hcursor hends (by omega) (by omega) c
  rw [hlen] at h3
  refine ⟨ ckTerminalUpdateCursor_unsafe (putCell s₁ c), ?_, h1, h2, h3⟩
  unfold csAddChar
  rw [if_pos (he.last_iff.mpr hlast), if_neg hrow]
  rfl

theorem csAddChar_fills (hroom : l.length + 1 < screenCells) (c : Byte) :
    ∃ s', csAddChar s c = (true, s') ∧ Fills s'.chars (l.insertIdx k c) ∧
      CellAt s'.cursorRow s'.cursorColumn (k + 1) ∧ CellAt s'.endRow s'.endColumn (l.length + 1) := by
  obtain ⟨h1, h2, h3⟩ := putCell_fills h hc he hk hroom c
  refine ⟨ ckTerminalUpdateCursor_unsafe (putCell s c), ?_, h1, h2, h3⟩
  unfold csAddChar
  exact if_neg fun e => Nat.ne_of_lt hroom (he.last_iff.mp e)

end

/-! ## the invariant -/

/-- The text fits on the screen, and no cell of its first row is empty in front of it. -/
structure Placed (before text : List Byte) (pos : Nat) : Prop where
  pos : pos ≤ text.length
  room : text.length ≤ lineBufferSize
  fits : before.length + text.length < screenCells
  text : ∀ b ∈ text, b ≠ 0
  row : ∀ i (h : i < before.length), before.length - before.length % terminalWidth ≤ i → before[i] ≠ 0

/-- **The buffer and the screen are those of the editor.** -/
structure Edits (s : Terminal) (e : Editor) : Prop where
  placed : Placed e.before e.text e.pos
  line : s.lineBufArray.Contains e.text lineBufferSize
  ptr : s.lineBufPtr = e.pos
  chars : Fills s.chars (e.before ++ e.text)
  cursor : CellAt s.cursorRow s.cursorColumn (e.before.length + e.pos)
  ends : CellAt s.endRow s.endColumn (e.before.length + e.text.length)

theorem insertIdx_append (l l' : List Byte) (k : Nat) (c : Byte) :
    (l ++ l').insertIdx (l.length + k) c = l ++ l'.insertIdx k c := by
  induction l with
  | nil => rw [List.nil_append, List.nil_append, List.length_nil, Nat.zero_add]
  | cons b l ih =>
    rw [List.cons_append, List.cons_append, List.length_cons, Nat.add_right_comm, List.insertIdx_succ_cons, ih]

/-- the screen has moved up -/
theorem Placed.drop {before text : List Byte} {pos : Nat} (h : Placed before text pos) :
    Placed (before.drop terminalWidth) text pos := by
  have hlen : (before.drop terminalWidth).length = before.length - terminalWidth := List.length_drop
  have hfits := h.fits
  refine ⟨h.pos, h.room, by omega, h.text, fun i hi hrow => ?_⟩
  rw [List.getElem_drop]
  refine h.row _ (by omega) ?_
  unfold terminalWidth at hi hlen hrow ⊢
  omega

theorem Placed.insert {before text : List Byte} {pos : Nat} (h : Placed before text pos) {c : Byte} (hc : c ≠ 0)
    (hroom : text.length < lineBufferSize) (hfits : before.length + text.length + 1 < screenCells) :
    Placed before (text.insertIdx pos c) (pos + 1) := by
  have hpos := h.pos
  have hlen : (text.insertIdx pos c).length = text.length + 1 := List.length_insertIdx_of_le_length hpos c
  exact ⟨by omega, by omega, by omega, fun b hb =>
    ((List.mem_insertIdx hpos).mp hb).elim (fun e => e ▸ hc) (h.text b), h.row⟩

theorem Placed.erase {before text : List Byte} {pos : Nat} (h : Placed before text pos) (hlt : pos < text.length) :
    Placed before (text.eraseIdx pos) pos := by
  have hfits := h.fits
  have hroom := h.room
  have hlen : (text.eraseIdx pos).length = text.length - 1 := List.length_eraseIdx_of_lt hlt
  exact ⟨by omega, by omega, by omega, fun b hb => h.text b (List.mem_of_mem_eraseIdx hb), h.row⟩

theorem Placed.move {before text : List Byte} {pos pos' : Nat} (h : Placed before text pos) (hle : pos' ≤ text.length) :
    Placed before text pos' := ⟨hle, h.room, h.fits, h.text, h.row⟩

/-! ## the subroutines -/

/-- the search in the row that the characters end in -/
theorem Fills.findRight {screen : Nat → Cell} {l : List Byte} (h : Fills (Cell.char ∘ screen) l) {row n : Nat}
    (hl : row * terminalWidth + n + 1 = l.length) (hn : n < terminalWidth) (hrow : (row + 1) * terminalWidth ≤ screenCells)
    (hlast : ∀ b ∈ l.getLast?, b ≠ 0) : findRightNotNull screen row terminalWidth = n + 1 := by
  have hlt : row * terminalWidth + n < l.length := by omega
  refine findRight_eq ?_ hn fun i h1 h2 => h.rest _ (by omega) (by rw [Nat.succ_mul] at hrow; omega)
  rw [show Cell.char _ = _ from h.holds _ hlt]
  refine hlast _ ?_
  rw [List.getLast?_eq_getElem?, ← hl, Nat.add_sub_cancel, List.getElem?_eq_getElem hlt]
  rfl

/-- the cells after a character is taken out -/
def deletedCells (s : Terminal) : Nat → Cell :=
  let screen := memmove s.termBuffer s.cursorPtr (s.cursorPtr + 1) (cellCount s.cursorPtr s.endPtr)
  Function.update screen s.endPtr (screen s.endPtr &&& 0xff00)

theorem ckTerminalDelete_column {s : Terminal} (h : s.cursorPtr ≠ s.endPtr) (hc : s.endColumn ≠ 0) :
    ckTerminalDelete_unsafe s = ckTerminalUpdateCursor_unsafe
      { s with termBuffer := deletedCells s, endColumn := dec16 s.endColumn } := by
  unfold ckTerminalDelete_unsafe
  rw [if_pos h]
  simp only [if_pos hc]
  rfl

theorem ckTerminalDelete_row {s : Terminal} (h : s.cursorPtr ≠ s.endPtr) (hc : s.endColumn = 0) :
    ckTerminalDelete_unsafe s = ckTerminalUpdateCursor_unsafe
      { s with
        termBuffer := deletedCells s
        endRow := dec16 s.endRow
        endColumn := findRightNotNull (deletedCells s) (dec16 s.endRow) terminalWidth } := by
  unfold ckTerminalDelete_unsafe
  rw [if_pos h]
  simp only [if_neg (not_not_intro hc)]
  rfl

/-- At the start of a row the end goes back to the last character of the row above, which has to be there. -/
theorem ckTerminalDelete_fills {s : Terminal} {l : List Byte} {k : Nat} (h : Fills s.chars l)
    (hc : CellAt s.cursorRow s.cursorColumn k) (he : CellAt s.endRow s.endColumn l.length) (hk : k < l.length)
    (hlast : l.length % terminalWidth = 0 → ∀ b ∈ (l.eraseIdx k).getLast?, b ≠ 0) :
    ∃ s', ckTerminalDelete_unsafe s = s' ∧ Fills s'.chars (l.eraseIdx k) ∧ CellAt s'.cursorRow s'.cursorColumn k ∧
      CellAt s'.endRow s'.endColumn (l.length - 1) ∧ SameInput s s' := by
  have hptr : s.cursorPtr = k := hc.eq
  have hend : s.endPtr = l.length := he.eq
  have hne : s.cursorPtr ≠ s.endPtr := by omega
  have hroom : l.length < screenCells := by
    have h1 := he.eq
    have h2 := he.width
    have h3 := he.height
    unfold screenCells terminalHeight terminalWidth at *
    omega
  have hcells : screenCells < 2^31 := by decide
  have hfills : Fills (Cell.char ∘ deletedCells s) (l.eraseIdx k) := by
    rw [deletedCells, chars_delete, memmove_map, hptr, hend, cellCount_eq (Nat.le_of_lt hk) (by omega)]
    exact h.erase hk hroom
  by_cases e : s.endColumn = 0
  · have hup := he.up e (Nat.zero_lt_of_lt hk)
    have hlen : dec16 s.endRow * terminalWidth + (terminalWidth - 2) + 1 = (l.eraseIdx k).length :=
      (Nat.add_assoc _ _ _).trans (hup.eq.trans (List.length_eraseIdx_of_lt hk).symm)
    have hcol := hfills.findRight hlen (by decide) (Nat.mul_le_mul_right _ hup.height)
      (hlast (by rw [← he.eq, e]; exact Nat.mul_mod_left _ _))
    refine ⟨_, ckTerminalDelete_row hne e, hfills, hc, ?_, rfl, rfl, rfl, rfl, rfl⟩
    rw [hcol]
    exact hup
  · exact ⟨_, ckTerminalDelete_column hne e, hfills, hc, he.left e, rfl, rfl, rfl, rfl, rfl⟩

/-! ## the keys -/

theorem Edits.congr {s s' : Terminal} {e : Editor} (h : Edits s e) (hline : s'.lineBufArray = s.lineBufArray)
    (hptr : s'.lineBufPtr = s.lineBufPtr) (hchars : s'.chars = s.chars)
    (hcursor : s'.cursorRow = s.cursorRow ∧ s'.cursorColumn = s.cursorColumn)
    (hends : s'.endRow = s.endRow ∧ s'.endColumn = s.endColumn) : Edits s' e :=
  ⟨h.placed, hline ▸ h.line, hptr.trans h.ptr, hchars ▸ h.chars, by rw [hcursor.1, hcursor.2]; exact h.cursor,
    by rw [hends.1, hends.2]; exact h.ends⟩

theorem insertChar_edits {s : Terminal} {e : Editor} (h : Edits s e) {c : Byte} (hc : Printable c) :
    ∃ s', insertChar s c = some s' ∧ Edits s' (e.insert c) := by
  obtain ⟨_, hnl, _, hbs, _, h0⟩ := hc.plain
  have hpos := h.placed.pos
  have hroom := h.placed.room
  have hfits := h.placed.fits
  unfold insertChar Editor.insert
  by_cases hfull : e.text.length = lineBufferSize
  · have hle : s.lineBufPtr ≤ s.lineBufArray.now := by
      rw [h.ptr, h.line.now]
      exact hpos
    have hnow : s.lineBufArray.now = s.lineBufArray.ends := h.line.now.trans (hfull.trans h.line.ends.symm)
    rw [if_pos hfull, ckArray8Insert, if_pos hle, if_pos hnow]
    exact ⟨s, rfl, h⟩
  · obtain ⟨ar, har, hline⟩ := ckArray8Insert_contains h.line hpos hfull c
    rw [← h.ptr] at har
    rw [if_neg hfull]
    let s₁ : Terminal := { s with lineBufArray := ar, lineBufPtr := s.lineBufPtr + 1 }
    have hptr : s₁.lineBufPtr = e.pos + 1 := congrArg (· + 1) h.ptr
    have hput : ckTerminalPutChar_unsafe s₁ c = some (csAddChar s₁ c) := by
      unfold ckTerminalPutChar_unsafe
      rw [if_neg hnl, if_neg hbs, if_pos h0]
    have hlen : (e.before ++ e.text).length = e.before.length + e.text.length := List.length_append
    have hfills : Fills s₁.chars (e.before ++ e.text) := h.chars
    have hends : CellAt s₁.endRow s₁.endColumn (e.before ++ e.text).length := hlen ▸ h.ends
    have hsame := csAddChar_sameInput s₁ c
    have hlen' : (e.text.insertIdx e.pos c).length = e.text.length + 1 := List.length_insertIdx_of_le_length hpos c
    by_cases hlast : e.before.length + e.text.length + 1 = screenCells
    · -- the input has been moved up, so that it fits again
      have hw : terminalWidth ≤ e.before.length := by
        unfold lineBufferSize at hroom
        unfold screenCells terminalHeight terminalWidth at *
        omega
      obtain ⟨s', hadd, h1, h2, h3⟩ := csAddChar_fills_last hfills h.cursor hends (by omega) (by omega) (by omega) c
      rw [hadd] at hput hsame
      rw [if_pos hlast]
      have hdrop : (e.before.drop terminalWidth).length = e.before.length - terminalWidth := List.length_drop
      refine ⟨s', insertChar_eq har hput, h.placed.drop.insert h0 (by omega) ?_, hsame.line ▸ hline,
        hsame.ptr.trans hptr, ?_, ?_, ?_⟩
      · have hpos : 0 < terminalWidth := by decide
        omega
      · rw [List.drop_append_of_le_length hw, show e.before.length + e.pos - terminalWidth =
          (e.before.drop terminalWidth).length + e.pos by omega, insertIdx_append] at h1
        exact h1
      · show CellAt _ _ ((e.before.drop terminalWidth).length + (e.pos + 1))
        rw [hdrop, show e.before.length - terminalWidth + (e.pos + 1) = e.before.length + e.pos - terminalWidth + 1 by omega]
        exact h2
      · show CellAt _ _ ((e.before.drop terminalWidth).length + (e.text.insertIdx e.pos c).length)
        rw [hdrop, hlen', show e.before.length - terminalWidth + (e.text.length + 1) =
          (e.before ++ e.text).length - terminalWidth + 1 by omega]
        exact h3
    · obtain ⟨s', hadd, h1, h2, h3⟩ := csAddChar_fills hfills h.cursor hends (by omega) (by omega) c
      rw [hadd] at hput hsame
      rw [if_neg hlast]
      rw [insertIdx_append] at h1
      refine ⟨s', insertChar_eq har hput, h.placed.insert h0 (by omega) (by omega), hsame.line ▸ hline,
        hsame.ptr.trans hptr, h1, h2, ?_⟩
      show CellAt _ _ (e.before.length + (e.text.insertIdx e.pos c).length)
      rw [hlen', ← Nat.add_assoc, ← hlen]
      exact h3

/-- the character in front of the start of a row -/
theorem Placed.last {before text : List Byte} {pos : Nat} (h : Placed before text pos)
    (hw : (before.length + text.length + 1) % terminalWidth = 0) : ∀ b ∈ (before ++ text).getLast?, b ≠ 0 := by
  intro b hb
  cases text with
  | nil =>
    rw [List.append_nil, List.getLast?_eq_getElem?] at hb
    obtain ⟨hlt, rfl⟩ := List.getElem?_eq_some_iff.mp (Option.mem_def.mp hb)
    refine h.row _ hlt ?_
    rw [List.length_nil] at hw
    unfold terminalWidth at hw ⊢
    omega
  | cons c text =>
    have hlast := List.getLast?_append_of_ne_nil before (List.cons_ne_nil c text)
    exact h.text b (List.mem_of_getLast? (hlast ▸ hb))

theorem deleteChar_edits {s : Terminal} {e : Editor} (h : Edits s e) :
    ∃ s', deleteChar s = some s' ∧ Edits s' { e with text := e.text.eraseIdx e.pos } := by
  have hpos := h.placed.pos
  unfold deleteChar
  by_cases hlt : e.pos < e.text.length
  · have hne : s.lineBufPtr ≠ s.lineBufArray.now := by
      rw [h.ptr, h.line.now]
      exact Nat.ne_of_lt hlt
    obtain ⟨ar, har, hline⟩ := ckArray8Erase_contains h.line hlt
    have hplaced := h.placed.erase hlt
    have hlen : (e.before ++ e.text).length = e.before.length + e.text.length := List.length_append
    have hlen' : (e.text.eraseIdx e.pos).length = e.text.length - 1 := List.length_eraseIdx_of_lt hlt
    have herase : (e.before ++ e.text).eraseIdx (e.before.length + e.pos) = e.before ++ e.text.eraseIdx e.pos := by
      rw [List.eraseIdx_append_of_length_le (Nat.le_add_right _ _), Nat.add_sub_cancel_left]
    obtain ⟨s', hdel, h1, h2, h3, hsame⟩ := ckTerminalDelete_fills (s := { s with lineBufArray := ar }) h.chars h.cursor
      (hlen ▸ h.ends) (by omega) fun hw => by
        rw [herase]
        exact hplaced.last (by rw [hlen', Nat.add_assoc, Nat.sub_add_cancel (by omega), ← hlen]; exact hw)
    have har' : ckArray8Erase s.lineBufArray s.lineBufPtr = some ar := h.ptr ▸ har
    rw [if_pos hne, har']
    refine ⟨s', congrArg some hdel, hplaced, hsame.line ▸ hline, hsame.ptr.trans h.ptr, herase ▸ h1, h2, ?_⟩
    show CellAt _ _ (e.before.length + (e.text.eraseIdx e.pos).length)
    rw [hlen', ← Nat.add_sub_assoc (by omega), ← hlen]
    exact h3
  · have heq : s.lineBufPtr = s.lineBufArray.now := by
      rw [h.ptr, h.line.now]
      omega
    rw [if_neg (not_not_intro heq), List.eraseIdx_of_length_le (Nat.le_of_not_lt hlt)]
    exact ⟨s, rfl, h⟩

theorem Edits.move {s : Terminal} {e : Editor} (h : Edits s e) {row column pos : Nat} (hle : pos ≤ e.text.length)
    (hc : CellAt row column (e.before.length + pos)) :
    Edits ( ckTerminalUpdateCursor_unsafe { s with lineBufPtr := pos, cursorRow := row, cursorColumn := column })
      { e with pos := pos } :=
  ⟨h.placed.move hle, h.line, rfl, h.chars, hc, h.ends⟩

theorem moveLeft_edits {s : Terminal} {e : Editor} (h : Edits s e) :
    Edits (moveLeft s) { e with pos := e.pos - 1 } := by
  have hpos := h.placed.pos
  unfold moveLeft
  rw [h.ptr]
  by_cases h0 : e.pos = 0
  · rw [if_neg (not_not_intro h0), h0]
    have hsame : ({ e with pos := 0 - 1 } : Editor) = e := by
      cases e
      exact congrArg _ h0.symm
    rw [hsame]
    exact h
  · rw [if_pos h0]
    have hle : e.pos - 1 ≤ e.text.length := Nat.le_trans (Nat.sub_le _ _) hpos
    have hptr : e.before.length + (e.pos - 1) = e.before.length + e.pos - 1 := by omega
    by_cases hc : s.cursorColumn = 0
    · simp only [if_pos hc]
      exact h.move hle (hptr ▸ h.cursor.up hc (by omega))
    · simp only [if_neg hc]
      exact h.move hle (hptr ▸ h.cursor.left hc)

theorem moveRight_edits {s : Terminal} {e : Editor} (h : Edits s e) :
    Edits (moveRight s) { e with pos := min (e.pos + 1) e.text.length } := by
  have hpos := h.placed.pos
  have hfits := h.placed.fits
  unfold moveRight
  rw [h.ptr, h.line.now]
  by_cases hend : e.pos = e.text.length
  · rw [if_neg (not_not_intro hend), Nat.min_eq_right (by omega), ← hend]
    exact h
  · rw [if_pos hend, Nat.min_eq_left (by omega)]
    exact h.move (Nat.lt_of_le_of_ne hpos hend) (h.cursor.next (by omega))

/-- the keys that are no characters -/
theorem control_key {c : Byte} : (c ∈ casciiDelete ∨ c ∈ casciiLeft ∨ c ∈ casciiRight → ckKeyIsAscii c = false) ∧
    (Printable c → c ∉ casciiDelete ∧ c ∉ casciiLeft ∧ c ∉ casciiRight) ∧
    (c ∈ casciiLeft → c ∉ casciiDelete) ∧ (c ∈ casciiRight → c ∉ casciiDelete ∧ c ∉ casciiLeft) := by
  revert c
  decide +kernel

theorem editLine_edits {s : Terminal} {e : Editor} (h : Edits s e) {c : Byte} (hc : EditKey c) :
    ∃ s', editLine s c = some s' ∧ Edits s' (e.key c) := by
  obtain ⟨hcontrol, hplain, hleft, hright⟩ := control_key (c := c)
  unfold editLine Editor.key
  rcases hc with hc | hc | hc | hc
  · obtain ⟨hascii, hnl, hesc, hbs, hcntrl, _⟩ := hc.plain
    obtain ⟨h1, h2, h3⟩ := hplain hc
    rw [if_pos hascii, if_neg hnl, if_neg hesc, if_neg hbs, if_pos (by rw [hcntrl]; exact Bool.false_ne_true),
      if_neg h1, if_neg h2, if_neg h3]
    exact insertChar_edits h hc
  · rw [if_neg (Bool.not_eq_true _ ▸ hcontrol (.inl hc)), if_pos hc, if_pos hc]
    exact deleteChar_edits h
  · rw [if_neg (Bool.not_eq_true _ ▸ hcontrol (.inr (.inl hc))), if_neg (hleft hc), if_pos hc, if_neg (hleft hc), if_pos hc]
    exact ⟨_, rfl, moveLeft_edits h⟩
  · obtain ⟨h1, h2⟩ := hright hc
    rw [if_neg (Bool.not_eq_true _ ▸ hcontrol (.inr (.inr hc))), if_neg h1, if_neg h2, if_pos hc, if_neg h1, if_neg h2,
      if_pos hc]
    exact ⟨_, rfl, moveRight_edits h⟩

/-- **One key.** -/
theorem key_edits {s : Terminal} {e : Editor} (hstat : s.termStat = .stringInputing) (h : Edits s e) {c : Byte}
    (hc : EditKey c) : ∃ s', ckTerminalOnInput s c = some s' ∧ s'.termStat = .stringInputing ∧ Edits s' (e.key c) := by
  let s₁ : Terminal := { s with
    hitKeyQueue := (ckCircularQueue8Put s.hitKeyQueue c).2
    hitEvent := ckBiSemPost s.hitEvent
    termStat := .waiting }
  obtain ⟨s', hs', h'⟩ := editLine_edits (s := s₁) (h.congr rfl rfl rfl ⟨rfl, rfl⟩ ⟨rfl, rfl⟩) hc
  refine ⟨{ s' with termStat := .stringInputing }, ?_, rfl, h'.congr rfl rfl rfl ⟨rfl, rfl⟩ ⟨rfl, rfl⟩⟩
  rw [ckTerminalOnInput_editLine hstat, hs']
  rfl

theorem keys_edits : ∀ {keys : List Byte} {s : Terminal} {e : Editor}, s.termStat = .stringInputing → Edits s e →
    (∀ c ∈ keys, EditKey c) → ∃ s', keys.foldlM ckTerminalOnInput s = some s' ∧ s'.termStat = .stringInputing ∧
      Edits s' (keys.foldl Editor.key e)
  | [], s, e, hstat, h, _ => ⟨s, rfl, hstat, h⟩
  | c :: keys, s, e, hstat, h, hk => by
    obtain ⟨hc, hkeys⟩ := List.forall_mem_cons.mp hk
    obtain ⟨s₁, e₁, hstat₁, h₁⟩ := key_edits hstat h hc
    obtain ⟨s₂, e₂, hstat₂, h₂⟩ := keys_edits hstat₁ h₁ hkeys
    refine ⟨s₂, ?_, hstat₂, h₂⟩
    rw [List.foldlM_cons, e₁]
    exact e₂

/-! ## the prompt -/

theorem putChar_sameInput {s s' : Terminal} {c : Byte} {ret : Bool} (hb : c ≠ 0x08)
    (h : ckTerminalPutChar_unsafe s c = some (ret, s')) : SameInput s s' := by
  unfold ckTerminalPutChar_unsafe at h
  by_cases hnl : c = 0x0a
  · rw [if_pos hnl] at h
    obtain ⟨_, rfl⟩ := Prod.mk.inj (Option.some.inj h)
    exact csNewLine_sameInput s
  · rw [if_neg hnl, if_neg hb] at h
    split at h
    · have hadd := csAddChar_sameInput s c
      rw [Option.some.inj h] at hadd
      exact hadd
    · obtain ⟨_, rfl⟩ := Prod.mk.inj (Option.some.inj h)
      exact ⟨rfl, rfl, rfl, rfl, rfl⟩

theorem printString_sameInput : ∀ {str : List Byte} {s s' : Terminal}, 0x08 ∉ str →
    ckTerminalPrintString s str = some s' → SameInput s s'
  | [], s, s', _, h => Option.some.inj h ▸ ⟨rfl, rfl, rfl, rfl, rfl⟩
  | c :: str, s, s', hb, h => by
    obtain ⟨hc, hstr⟩ := not_or.mp fun e => hb (List.mem_cons.mpr e)
    unfold ckTerminalPrintString at h
    split at h
    · obtain ⟨⟨ret, s₁⟩, e₁, e₂⟩ := Option.bind_eq_some_iff.mp h
      exact (putChar_sameInput (Ne.symm hc) e₁).trans (printString_sameInput hstr e₂)
    · exact Option.some.inj h ▸ ⟨rfl, rfl, rfl, rfl, rfl⟩

theorem Log.put_line {log : Log} (h : ∀ b ∈ log.line, b ≠ 0) (c : Byte) : ∀ b ∈ (log.put c).line, b ≠ 0 := by
  unfold Log.put
  split
  · exact List.forall_mem_nil _
  · split
    · exact h
    · split
      · exact List.forall_mem_nil _
      · exact List.forall_mem_append.mpr ⟨h, List.forall_mem_singleton.mpr ‹_›⟩

theorem Log.foldl_line : ∀ {str : List Byte} {log : Log}, (∀ b ∈ log.line, b ≠ 0) →
    ∀ b ∈ (str.foldl Log.put log).line, b ≠ 0
  | [], log, h => h
  | c :: str, log, h => by
    rw [List.foldl_cons]
    exact Log.foldl_line (log.put_line h c)

/-- what stands on the screen in front of the end of a log, and nothing behind it -/
theorem Shows.fills {s : Terminal} {log : Log} (h : Shows s log) :
    Fills s.chars ((List.range s.cursorPtr).map s.chars) := by
  have hlen : ((List.range s.cursorPtr).map s.chars).length = s.cursorPtr := by
    rw [List.length_map, List.length_range]
  refine ⟨fun i hi => by rw [List.getElem_map, List.getElem_range], fun i hi hlt => ?_⟩
  rw [hlen] at hi
  have hrow := h.row
  have hcol := h.cursorColumn
  have hw := h.width
  have hptr : s.cursorRow * terminalWidth + s.cursorColumn ≤ i := hi
  unfold screenCells terminalHeight terminalWidth at *
  have hcell := h.from (i / 80) (i % 80) (by unfold terminalHeight; omega) (Nat.mod_lt _ (by decide))
  have hdiv : i / 80 * terminalWidth + i % 80 = i := Nat.div_add_mod' i 80
  rw [hdiv] at hcell
  rw [hcell]
  have htop : log.top = log.rows.length - 23 := rfl
  unfold Log.all cellOf
  by_cases e : log.top + i / 80 = log.rows.length
  · -- the row of the cursor
    rw [e, List.getElem?_concat_length]
    show (log.line[i % 80]?).getD 0 = 0
    rw [List.getElem?_eq_none (by omega)]
    rfl
  · rw [List.getElem?_eq_none (by rw [List.length_append, List.length_singleton]; omega)]
    rfl

/-- the characters of the last row -/
theorem Shows.lastRow {s : Terminal} {log : Log} (h : Shows s log) {column : Nat} (hc : column < log.line.length) :
    s.chars (s.cursorRow * terminalWidth + column) = log.line[column] := by
  have hrow := h.row
  have hlt := h.onScreen.1
  rw [h.from _ column hlt (Nat.lt_trans hc h.width)]
  have hlast : log.top + s.cursorRow = log.rows.length := by
    rw [hrow, Log.top]
    omega
  rw [Log.all, cellOf, hlast, List.getElem?_concat_length]
  show (log.line[column]?).getD 0 = _
  rw [List.getElem?_eq_getElem hc]
  rfl

theorem start_edits {s : Terminal} {log : Log} (h : Shows s log) (hline : ∀ b ∈ log.line, b ≠ 0)
    (har : s.lineBufArray.Contains [] lineBufferSize) (hptr : s.lineBufPtr = 0) : Edits s (Editor.start s) := by
  have hlen : (Editor.start s).before.length = s.cursorPtr := by
    show ((List.range s.cursorPtr).map s.chars).length = _
    rw [List.length_map, List.length_range]
  obtain ⟨hr, hc⟩ := h.onScreen
  have hcursor : CellAt s.cursorRow s.cursorColumn ((Editor.start s).before.length + 0) := ⟨hlen.symm, hc, hr⟩
  have hp : s.cursorPtr = s.cursorRow * terminalWidth + s.cursorColumn := rfl
  refine ⟨⟨Nat.le_refl _, Nat.zero_le _, ?_, List.forall_mem_nil _, fun i hlt hrow => ?_⟩, har, hptr, ?_, hcursor, ?_⟩
  · show (Editor.start s).before.length + 0 < _
    unfold screenCells terminalHeight terminalWidth at *
    omega
  · have hcell : s.chars i = (Editor.start s).before[i] := h.fills.holds i hlt
    rw [hlen] at hlt hrow
    have hmod : s.cursorPtr % terminalWidth = s.cursorColumn := by
      rw [hp, Nat.mul_add_mod_self_right, Nat.mod_eq_of_lt hc]
    have hcol := h.cursorColumn
    have hlast := h.lastRow (show i - s.cursorRow * terminalWidth < log.line.length by omega)
    rw [show s.cursorRow * terminalWidth + (i - s.cursorRow * terminalWidth) = i by omega] at hlast
    rw [← hcell, hlast]
    exact hline _ (List.getElem_mem _)
  · show Fills s.chars (_ ++ [])
    rw [List.append_nil]
    exact h.fills
  · rw [h.endRow, h.endColumn]
    exact hcursor

/-! ## the line editor -/

theorem Edits.mirrors {s : Terminal} {e : Editor} (h : Edits s e) : Mirrors s e := by
  have hend : s.endPtr = e.before.length + e.text.length := h.ends.eq
  refine ⟨h.line, h.ptr, h.chars.holds.append_left, ?_, h.cursor.eq, ⟨h.cursor.height, h.cursor.width⟩,
    h.ends.height, h.ends.width⟩
  rw [hend, Nat.add_sub_cancel_left]
  refine List.ext_getElem (by rw [List.length_map, List.length_range']) fun i h1 h2 => ?_
  have hlt : e.before.length + i < (e.before ++ e.text).length := by
    rw [List.length_append]
    omega
  rw [List.getElem_map, List.getElem_range', Nat.one_mul, h.chars.holds _ hlt,
    List.getElem_append_right (Nat.le_add_right _ _)]
  congr 1
  exact Nat.add_sub_cancel_left _ _

/-- **The line editor.**  Whatever prompt is printed on a cleared screen, and whatever keys are pressed then. -/
theorem editor_mirrors (s : Terminal) {prompt keys : List Byte} (hp : ∀ c ∈ prompt, c ≠ 0 ∧ c ≠ 0x08)
    (hk : ∀ c ∈ keys, EditKey c) :
    ∃ s₁ s', ckTerminalPrintString ( ckTerminalCls_unsafe s) prompt = some s₁ ∧
      keys.foldlM ckTerminalOnInput (ckTerminalSetStatus s₁ .stringInputing) = some s' ∧
      Mirrors s' (keys.foldl Editor.key (Editor.start s₁)) := by
  have hall : prompt.takeWhile (· ≠ 0) = prompt := List.takeWhile_eq_self_iff.mpr fun c hc => decide_eq_true (hp c hc).1
  have hb : 0x08 ∉ prompt := fun hm => (hp _ hm).2 rfl
  obtain ⟨s₁, hprint, hshows, _⟩ := printString_shows (cls_shows s).1 (hall.symm ▸ hb)
  have hsame := printString_sameInput hb hprint
  have hline := @Log.foldl_line (prompt.takeWhile (· ≠ 0)) Log.empty (List.forall_mem_nil _)
  have harray : s₁.lineBufArray.Contains [] lineBufferSize := by
    rw [hsame.line]
    exact ⟨rfl, rfl, holds_nil _⟩
  have hedits := start_edits hshows hline harray hsame.ptr
  obtain ⟨s', hrun, _, h'⟩ := keys_edits (s := ckTerminalSetStatus s₁ .stringInputing) rfl
    (hedits.congr rfl rfl rfl ⟨rfl, rfl⟩ ⟨rfl, rfl⟩) hk
  exact ⟨s₁, s', hprint, hrun, h'.mirrors⟩

/-- a prompt of three characters; then `a`, Left, `b`, Delete -/
theorem editor_mirrors_insert :
    ∃ s₁ s', ckTerminalPrintString ( ckTerminalCls_unsafe (Terminal.zero fun _ => 0x0741)) [0x6f, 0x6b, 0x3e] = some s₁ ∧
      [0x61, 0xa7, 0x62, 0xad].foldlM ckTerminalOnInput (ckTerminalSetStatus s₁ .stringInputing) = some s' ∧
      Mirrors s' ([0x61, 0xa7, 0x62, 0xad].foldl Editor.key (Editor.start s₁)) :=
  editor_mirrors (Terminal.zero fun _ => 0x0741) (by decide) (by decide)

end Clubcos
