import Clubcos.Terminal.Backspace

/-!
# Escape

* `Log.type`        a character of a prompt, which may be a backspace; `printPrompt_shows` is what a prompt leaves;
* `Cancelled`       what Escape is to do: the line is empty, cursor and end are where the input started, and the cells of
  the input, and no others, are blank;
* `cancelLoop_spec` the walk back over the rows;
* `cancel_edits`    Escape undoes the input exactly if the cursor stands at its end;
* `escape_iff`      **when Escape undoes the whole input and nothing else**;
* `escape_inside`   with the cursor in front of the last character it blanks the end of the prompt.
-/

set_option linter.unusedVariables false

namespace Clubcos
open Word

/-! ## a prompt with backspaces -/

def Log.type (log : Log) (c : Byte) : Log := if c = 0x08 then ⟨log.rows, log.line.dropLast⟩ else log.put c

/-- every backspace stands behind a character of its row, or at the top of the screen -/
def Log.Takes : Log → List Byte → Prop
  | _, [] => True
  | log, c :: str => (c = 0x08 → log.line ≠ [] ∨ log.rows = []) ∧ (log.type c).Takes str

theorem delete_sameInput (s : Terminal) : SameInput s ( ckTerminalDelete_unsafe s) := by
  by_cases h : s.cursorPtr = s.endPtr
  · unfold ckTerminalDelete_unsafe
    rw [if_neg (not_not_intro h)]
    exact ⟨rfl, rfl, rfl, rfl, rfl⟩
  · by_cases hc : s.endColumn = 0
    · rw [ckTerminalDelete_row h hc]
      exact ⟨rfl, rfl, rfl, rfl, rfl⟩
    · rw [ckTerminalDelete_column h hc]
      exact ⟨rfl, rfl, rfl, rfl, rfl⟩

/-- behind the last character of the last row -/
theorem cellOf_end (rows : List (List Byte)) {row : List Byte} {column : Nat} (h : row.length ≤ column) :
    cellOf (rows ++ [row]) rows.length column = 0 := by
  rw [cellOf, List.getElem?_concat_length]
  show (row[column]?).getD 0 = 0
  rw [List.getElem?_eq_none h]
  rfl

/-- With one cell between the cursor and the end, the cell at the end moves in and leaves an empty one. -/
theorem deletedCells_one {t : Terminal} (hends : t.endPtr = t.cursorPtr + 1) (hlt : t.cursorPtr + 1 < 2^31) :
    Cell.char ∘ deletedCells t =
      Function.update (Function.update t.chars t.cursorPtr (t.chars (t.cursorPtr + 1))) (t.cursorPtr + 1) 0 := by
  have hcount : cellCount t.cursorPtr (t.cursorPtr + 1) = 1 := by
    rw [cellCount_eq (Nat.le_succ _) hlt]
    exact Nat.add_sub_cancel_left _ 1
  have hmove : memmove t.chars t.cursorPtr (t.cursorPtr + 1) 1 =
      Function.update t.chars t.cursorPtr (t.chars (t.cursorPtr + 1)) := by
    funext x
    by_cases e : x = t.cursorPtr
    · rw [e, Function.update_self, memmove, if_pos ⟨Nat.le_refl _, Nat.lt_succ_self _⟩, Nat.sub_self, Nat.add_zero]
    · rw [Function.update_of_ne e, memmove, if_neg (by omega)]
  rw [deletedCells_chars, hends, hcount, hmove]

/-- the last character of a row is taken back -/
theorem deletedCells_shows {s t : Terminal} {rows : List (List Byte)} {line : List Byte} {c : Byte}
    (h : Shows s ⟨rows, line ++ [c]⟩) (hbuf : t.termBuffer = s.termBuffer)
    (hcursor : t.cursorPtr = s.cursorRow * terminalWidth + line.length) (hends : t.endPtr = t.cursorPtr + 1)
    {s' : Terminal} (hs' : s'.termBuffer = deletedCells t) : ShowsFrom s' (rows ++ [line]) (Log.top ⟨rows, line⟩) := by
  have hrow : Log.top ⟨rows, line⟩ + s.cursorRow = rows.length := by
    rw [h.row]
    show rows.length - (terminalHeight - 1) + min rows.length (terminalHeight - 1) = rows.length
    omega
  have hwidth : line.length + 1 < terminalWidth := by
    have hw := h.width
    rwa [List.length_append] at hw
  have hon := h.onScreen.1
  have hlt : t.cursorPtr + 1 < 2^31 := by
    rw [hcursor]
    unfold terminalHeight terminalWidth at *
    omega
  have hchars : s'.chars =
      Function.update (Function.update s.chars t.cursorPtr (s.chars (t.cursorPtr + 1))) (t.cursorPtr + 1) 0 := by
    rw [Terminal.chars, hs', deletedCells_one hends hlt, Terminal.chars, hbuf]
    rfl
  intro row column hr hc
  have hcell : s.chars (row * terminalWidth + column) =
      cellOf (rows ++ [line ++ [c]]) (Log.top ⟨rows, line⟩ + row) column := h.from row column hr hc
  rw [cellOf_snoc] at hcell
  rw [hchars]
  by_cases hat : row = s.cursorRow ∧ line.length ≤ column
  · rw [hat.1, hrow, cellOf_end rows hat.2]
    by_cases e : column = line.length + 1
    · rw [show s.cursorRow * terminalWidth + column = t.cursorPtr + 1 by rw [hcursor, e]; rfl, Function.update_self]
    · have hne : s.cursorRow * terminalWidth + column ≠ t.cursorPtr + 1 := by omega
      rw [Function.update_of_ne hne]
      by_cases e' : column = line.length
      · -- the cell behind it moves in, which is empty
        have hnext : s.chars (s.cursorRow * terminalWidth + (line.length + 1)) =
            cellOf (rows ++ [line ++ [c]]) (Log.top ⟨rows, line⟩ + s.cursorRow) (line.length + 1) :=
          h.from s.cursorRow (line.length + 1) hon hwidth
        have hlast : (line ++ [c]).length ≤ line.length + 1 := List.length_append.le
        rw [hrow, cellOf_end rows hlast] at hnext
        have hself : s.cursorRow * terminalWidth + column = t.cursorPtr := by rw [hcursor, e']
        rw [hself, Function.update_self, hcursor]
        exact hnext
      · have hne' : s.cursorRow * terminalWidth + column ≠ t.cursorPtr := by omega
        rw [Function.update_of_ne hne']
        rw [hat.1, hrow, if_neg (fun h => e' h.2), cellOf_end rows hat.2] at hcell
        exact hcell
  · have hne : row * terminalWidth + column ≠ t.cursorPtr ∧ row * terminalWidth + column ≠ t.cursorPtr + 1 := by
      rw [hcursor]
      unfold terminalWidth at *
      omega
    rw [Function.update_of_ne hne.2, Function.update_of_ne hne.1, hcell, if_neg fun h => hat ⟨by omega, h.2.ge⟩]

/-- **A backspace behind a character** takes it back. -/
theorem backspace_shows {s : Terminal} {rows : List (List Byte)} {line : List Byte} {c : Byte}
    (h : Shows s ⟨rows, line ++ [c]⟩) :
    ∃ s', ckTerminalBackspace_unsafe s = some s' ∧ Shows s' ⟨rows, line⟩ ∧ SameInput s s' := by
  have hcol : s.cursorColumn = line.length + 1 := h.cursorColumn.trans List.length_append
  have hwidth : line.length + 1 < terminalWidth := by
    have hw := h.width
    rwa [List.length_append] at hw
  have hdec : dec16 (line.length + 1) = line.length :=
    dec16_of_pos (Nat.succ_pos _) (by unfold terminalWidth at hwidth; omega)
  have hcall := backspace_inside (s := s) (by rw [hcol]; exact Nat.succ_ne_zero _)
  rw [hcol, hdec] at hcall
  have hptr : Terminal.cursorPtr { s with cursorColumn := line.length } = s.cursorRow * terminalWidth + line.length := rfl
  have hends : Terminal.endPtr { s with cursorColumn := line.length } =
      Terminal.cursorPtr { s with cursorColumn := line.length } + 1 := by
    rw [hptr]
    show s.endRow * terminalWidth + s.endColumn = _
    rw [h.endRow, h.endColumn, hcol]
    rfl
  have hne : Terminal.cursorPtr { s with cursorColumn := line.length } ≠
      Terminal.endPtr { s with cursorColumn := line.length } := by
    rw [hends]
    exact Nat.ne_of_lt (Nat.lt_succ_self _)
  have hendcol : s.endColumn = line.length + 1 := h.endColumn.trans hcol
  rw [ckTerminalDelete_column hne (by show s.endColumn ≠ 0; rw [hendcol]; exact Nat.succ_ne_zero _)] at hcall
  have hbuf : Terminal.termBuffer { s with cursorColumn := line.length } = s.termBuffer := rfl
  refine ⟨_, hcall, Shows.intro (deletedCells_shows h hbuf hptr hends rfl) h.row rfl h.endRow ?_
    (Nat.lt_of_succ_lt hwidth), rfl, rfl, rfl, rfl, rfl⟩
  show dec16 s.endColumn = line.length
  rw [hendcol, hdec]

/-- one character of a prompt -/
theorem promptChar_shows {s : Terminal} {log : Log} (h : Shows s log) {c : Byte}
    (hc : c = 0x08 → log.line ≠ [] ∨ log.rows = []) :
    ∃ ret s', ckTerminalPutChar_unsafe s c = some (ret, s') ∧ Shows s' (log.type c) ∧ SameInput s s' := by
  unfold Log.type
  by_cases hb : c = 0x08
  · rw [if_pos hb, hb, putChar_backspace]
    obtain ⟨rows, line⟩ := log
    rcases List.eq_nil_or_concat line with rfl | ⟨front, last, rfl⟩
    · -- at the top of the screen nothing happens
      have hrows : rows = [] := (hc hb).resolve_left fun hn => hn rfl
      subst hrows
      rw [backspace_origin h.row h.cursorColumn]
      exact ⟨true, _, rfl, ⟨h.chars, h.cursorRow, h.cursorColumn, h.endRow, h.endColumn, h.width⟩, rfl, rfl, rfl, rfl, rfl⟩
    · rw [List.concat_eq_append] at h ⊢
      obtain ⟨s', hcall, hs', hsame⟩ := backspace_shows h
      rw [hcall, List.dropLast_concat]
      exact ⟨true, s', rfl, hs', hsame⟩
  · rw [if_neg hb]
    obtain ⟨s', hcall, hs', _⟩ := putChar_shows h hb
    exact ⟨true, s', hcall, hs', putChar_sameInput hb hcall⟩

theorem Log.type_line {log : Log} (h : ∀ b ∈ log.line, b ≠ 0) (c : Byte) : ∀ b ∈ (log.type c).line, b ≠ 0 := by
  unfold Log.type
  split
  · exact fun b hb => h b ((List.dropLast_sublist _).mem hb)
  · exact log.put_line h c

/-- **A prompt** leaves the screen as its characters say. -/
theorem printPrompt_shows : ∀ {str : List Byte} {s : Terminal} {log : Log}, Shows s log → (∀ b ∈ log.line, b ≠ 0) →
    (∀ c ∈ str, c ≠ 0) → log.Takes str → ∃ s' log', ckTerminalPrintString s str = some s' ∧ Shows s' log' ∧
      (∀ b ∈ log'.line, b ≠ 0) ∧ SameInput s s'
  | [], s, log, h, hline, _, _ => ⟨s, log, rfl, h, hline, SameInput.refl s⟩
  | c :: str, s, log, h, hline, hz, ht => by
    obtain ⟨hc, hstr⟩ := List.forall_mem_cons.mp hz
    obtain ⟨ret, s₁, e₁, h₁, hsame₁⟩ := promptChar_shows h ht.1
    obtain ⟨s₂, log', e₂, h₂, hline₂, hsame₂⟩ := printPrompt_shows h₁ (log.type_line hline c) hstr ht.2
    refine ⟨s₂, log', ?_, h₂, hline₂, hsame₁.trans hsame₂⟩
    unfold ckTerminalPrintString
    rw [if_pos hc, e₁]
    exact e₂

/-! ## escape -/

/-- `s` is the state before Escape, with the input `e`, and `s'` the one behind it -/
structure Cancelled (s : Terminal) (e : Editor) (s' : Terminal) : Prop where
  line : s'.lineBufArray.Contains [] lineBufferSize ∧ s'.lineBufPtr = 0
  cursor : CellAt s'.cursorRow s'.cursorColumn e.before.length
  ends : s'.endRow = s'.cursorRow ∧ s'.endColumn = s'.cursorColumn
  chars : s'.chars = memset_2 s.chars e.before.length 0 e.text.length

/-- the rows gone back, which are counted in 16 bits, and the column that is left -/
theorem cancelLoop_spec : ∀ (rounds : Nat) (col : Int) (row : Nat), row < 2^16 → -(terminalWidth * rounds : Int) ≤ col →
    col < terminalWidth → ∃ k ≤ rounds, ∃ row' column' : Nat, cancelLoop rounds col row = ((column' : Int), row') ∧
      (column' : Int) = col + terminalWidth * k ∧ column' < terminalWidth ∧ (row' : Int) = ((row : Int) - k) % 2^16 := by
  intro rounds
  induction rounds with
  | zero =>
    intro col row hrow hge hlt
    obtain ⟨column', rfl⟩ := Int.eq_ofNat_of_zero_le (a := col) (by omega)
    refine ⟨0, Nat.le_refl _, row, column', rfl, by omega, by omega, ?_⟩
    omega
  | succ rounds ih =>
    intro col row hrow hge hlt
    unfold cancelLoop
    by_cases hneg : col < 0
    · have hdec : dec16 row < 2^16 := Nat.mod_lt _ (by decide)
      have hle : -(terminalWidth * rounds : Int) ≤ col + terminalWidth := by
        rw [Int.natCast_succ, Int.mul_add] at hge
        omega
      obtain ⟨k, hk, row', column', hloop, hcol, hw, hrow'⟩ := ih (col + terminalWidth) (dec16 row) hdec hle (by omega)
      rw [if_pos hneg]
      refine ⟨k + 1, Nat.succ_le_succ hk, row', column', hloop, ?_, hw, ?_⟩
      · rw [hcol, Int.natCast_succ, Int.mul_add]
        omega
      · rw [hrow']
        unfold dec16
        omega
    · obtain ⟨column', rfl⟩ := Int.eq_ofNat_of_zero_le (a := col) (by omega)
      rw [if_neg hneg]
      refine ⟨0, Nat.zero_le _, row, column', rfl, by omega, by omega, ?_⟩
      omega

/-- `s` with the cursor at a place, the cells from there to the end blank, and the line empty -/
def cancelledTo (s : Terminal) (row column : Nat) : Terminal :=
  ckTerminalUpdateCursor_unsafe ( ckTerminalClearLineBuffer_unsafe { s with
    cursorRow := row
    cursorColumn := column
    termBuffer := memset_2 s.termBuffer (row * terminalWidth + column) (csMakeVGAEntry 0 s.termColor)
      (sizeCount (row * terminalWidth + column) s.endPtr) })

theorem csCancelInputing_eq {s : Terminal} {row column : Nat} (hw : column < terminalWidth)
    (h : cancelLoop (s.lineBufArray.now % 2^16) ((s.cursorColumn : Int) - (s.lineBufArray.now % 2^16 : Nat)) s.cursorRow =
      ((column : Int), row)) : csCancelInputing s = cancelledTo s row column := by
  have hcol : ((column : Int) % 2^16).toNat = column := by
    unfold terminalWidth at hw
    omega
  unfold csCancelInputing
  simp only [h, hcol]
  rfl

section
variable {s : Terminal} {e : Editor} (h : Edits s e)
include h

/-- the walk back ends at the start of the input exactly if it starts at its end -/
theorem cancel_position : ∃ row column, csCancelInputing s = cancelledTo s row column ∧
    (CellAt row column e.before.length ↔ e.pos = e.text.length) := by
  have hnow : s.lineBufArray.now % 2^16 = e.text.length := by
    have hroom := h.placed.room
    rw [h.line.now]
    unfold lineBufferSize at hroom
    omega
  have hpos := h.placed.pos
  have hroom := h.placed.room
  have hptr := h.cursor.eq
  have hwidth := h.cursor.width
  have hheight := h.cursor.height
  have hge : -(terminalWidth * e.text.length : Int) ≤ (s.cursorColumn : Int) - e.text.length := by
    unfold terminalWidth
    omega
  have hrow : s.cursorRow < 2^16 := by
    unfold terminalHeight at hheight
    omega
  obtain ⟨k, hk, row, column, hloop, hcol, hw, hback⟩ := cancelLoop_spec e.text.length
    ((s.cursorColumn : Int) - e.text.length) s.cursorRow hrow hge (by omega)
  refine ⟨row, column, csCancelInputing_eq hw (by rw [hnow]; exact hloop), fun hat => ?_, fun hend => ⟨?_, hw, ?_⟩⟩
  · -- a row counted down below zero is far from the screen
    have hat1 := hat.eq
    have hat2 := hat.height
    unfold terminalWidth terminalHeight lineBufferSize at *
    omega
  · unfold terminalWidth terminalHeight lineBufferSize at *
    omega
  · unfold terminalWidth terminalHeight lineBufferSize at *
    omega

/-- **Escape undoes the input** exactly if the cursor stands at its end. -/
theorem cancel_edits : Cancelled s e (csCancelInputing s) ↔ e.pos = e.text.length := by
  obtain ⟨row, column, hcall, hat⟩ := cancel_position h
  rw [hcall, ← hat]
  refine ⟨fun hc => hc.cursor, fun hc => ⟨⟨⟨rfl, rfl, holds_nil _⟩, rfl⟩, hc, ⟨rfl, rfl⟩, ?_⟩⟩
  have hends : s.endPtr = e.before.length + e.text.length := h.ends.eq
  have hroom := h.placed.room
  have hcount : sizeCount e.before.length (e.before.length + e.text.length) = e.text.length := by
    unfold sizeCount lineBufferSize at *
    omega
  show Cell.char ∘ memset_2 s.termBuffer (row * terminalWidth + column) (csMakeVGAEntry 0 s.termColor)
    (sizeCount (row * terminalWidth + column) s.endPtr) = _
  rw [hc.eq, hends, hcount, memset_map, char_entry]
  rfl

end

/-- Escape as a key -/
theorem onInput_escape {s : Terminal} (hs : s.termStat = .stringInputing) {e : Editor} (h : Edits s e) :
    ∃ s', ckTerminalOnInput s casciiEsc = some s' ∧ (Cancelled s e s' ↔ e.pos = e.text.length) := by
  let s₀ : Terminal := { s with
    hitKeyQueue := (ckCircularQueue8Put s.hitKeyQueue casciiEsc).2
    hitEvent := ckBiSemPost s.hitEvent
    termStat := .waiting }
  have h₀ : Edits s₀ e := h.congr rfl rfl rfl ⟨rfl, rfl⟩ ⟨rfl, rfl⟩
  refine ⟨{ csCancelInputing s₀ with termStat := .stringInputing }, ?_, ?_⟩
  · rw [ckTerminalOnInput_editLine hs]
    rfl
  · rw [← cancel_edits h₀]
    exact ⟨fun hc => ⟨hc.line, hc.cursor, hc.ends, hc.chars⟩, fun hc => ⟨hc.line, hc.cursor, hc.ends, hc.chars⟩⟩

/-- **Escape undoes the whole input and nothing else**, whatever prompt is printed on a cleared screen and whatever keys
are pressed then, exactly if the edit cursor stands at the end of the line. -/
theorem escape_iff (s : Terminal) {prompt keys : List Byte} (hz : ∀ c ∈ prompt, c ≠ 0) (hp : Log.empty.Takes prompt)
    (hk : ∀ c ∈ keys, EditKey c) :
    ∃ s₁ s₂ s₃, ckTerminalPrintString ( ckTerminalCls_unsafe s) prompt = some s₁ ∧
      keys.foldlM ckTerminalOnInput (ckTerminalSetStatus s₁ .stringInputing) = some s₂ ∧
      Mirrors s₂ (keys.foldl Editor.key (Editor.start s₁)) ∧ ckTerminalOnInput s₂ casciiEsc = some s₃ ∧
      (Cancelled s₂ (keys.foldl Editor.key (Editor.start s₁)) s₃ ↔ s₂.lineBufPtr = s₂.lineBufArray.now) := by
  obtain ⟨s₁, log, hprint, hshows, hline, hsame⟩ := printPrompt_shows (cls_shows s).1 (List.forall_mem_nil _) hz hp
  have harray : s₁.lineBufArray.Contains [] lineBufferSize := by
    rw [hsame.line]
    exact ⟨rfl, rfl, holds_nil _⟩
  have hedits := start_edits hshows hline harray hsame.ptr
  obtain ⟨s₂, hrun, hstat, h₂⟩ := keys_edits (s := ckTerminalSetStatus s₁ .stringInputing) rfl
    (hedits.congr rfl rfl rfl ⟨rfl, rfl⟩ ⟨rfl, rfl⟩) hk
  obtain ⟨s₃, hesc, hiff⟩ := onInput_escape hstat h₂
  refine ⟨s₁, s₂, s₃, hprint, hrun, h₂.mirrors, hesc, ?_⟩
  rw [hiff, h₂.ptr, h₂.line.now]

/-- a prompt with a character taken back; then `a`, `b`, Left, Right -/
theorem escape_iff_word :
    ∃ s₁ s₂ s₃, ckTerminalPrintString ( ckTerminalCls_unsafe (Terminal.zero fun _ => 0x0741)) [0x6f, 0x6b, 0x08, 0x3e] = some s₁ ∧
      [0x61, 0x62, 0xa7, 0xa8].foldlM ckTerminalOnInput (ckTerminalSetStatus s₁ .stringInputing) = some s₂ ∧
      Mirrors s₂ ([0x61, 0x62, 0xa7, 0xa8].foldl Editor.key (Editor.start s₁)) ∧
      ckTerminalOnInput s₂ casciiEsc = some s₃ ∧
      (Cancelled s₂ ([0x61, 0x62, 0xa7, 0xa8].foldl Editor.key (Editor.start s₁)) s₃ ↔
        s₂.lineBufPtr = s₂.lineBufArray.now) :=
  escape_iff (Terminal.zero fun _ => 0x0741) (by decide) ⟨nofun, nofun, fun _ => Or.inl nofun, nofun, trivial⟩ (by decide)

/-- a prompt of three characters, then `a`, `b` and Left, and Escape: the state behind each of the three -/
def insideRun : Option (Terminal × Terminal × Terminal) := do
  let s₁ ← ckTerminalPrintString ( ckTerminalCls_unsafe (.zero fun _ => 0)) [0x6f, 0x6b, 0x3e]
  let s₂ ← [0x61, 0x62, 0xa7].foldlM ckTerminalOnInput (ckTerminalSetStatus s₁ .stringInputing)
  let s₃ ← ckTerminalOnInput s₂ casciiEsc
  return (s₁, s₂, s₃)

theorem insideRun_some : insideRun.isSome := by decide +kernel

def insideState : Terminal × Terminal × Terminal := insideRun.get insideRun_some

/-- **Escape behind the first of two characters**: the length of the line is counted back from the cursor, and the last
character of the prompt is blanked. -/
theorem escape_inside : insideState.2.1.chars 2 = 0x3e ∧ insideState.2.2.chars 2 = 0 ∧
    ¬ Cancelled insideState.2.1 ([0x61, 0x62, 0xa7].foldl Editor.key (Editor.start insideState.1)) insideState.2.2 := by
  refine ⟨by decide +kernel, by decide +kernel, fun hc => ?_⟩
  have hstart : ([0x61, 0x62, 0xa7].foldl Editor.key (Editor.start insideState.1)).before.length = 3 := by decide +kernel
  have hptr : insideState.2.2.cursorRow * terminalWidth + insideState.2.2.cursorColumn = 2 := by decide +kernel
  have hat := hc.cursor.eq
  rw [hstart, hptr] at hat
  cases hat

end Clubcos
