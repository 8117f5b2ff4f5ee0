import Clubcos.Lib.Machine
import Clubcos.Terminal.Screen

/-!
# The hardware cursor

The VGA shows its cursor at a position in two of its registers.  Every path of terminal.c that moves the cursor writes
them after the last change, except `ckTerminalCls_unsafe`, which writes them before.

* `outCursor_cursor`   the four port writes set the registers to the position;
* `Refreshes`            an operation writes the registers, or leaves the cursor where it was;
* `exec_refreshes`       **every operation but `ckTerminalCls`** is of this kind;
* `cursor_shown`       **whole runs**: where the cursor is not shown, `ckTerminalCls` was called off the origin;
* `cls_hides`          a character and a `ckTerminalCls`.
-/

set_option linter.unusedVariables false

namespace Clubcos
open Word

/-! ## the registers -/

def baseVideoPort : Nat := 0x3d4

/-- the register that is selected, and the registers of the VGA -/
structure Vga where
  index : Byte
  regs : Byte → Byte

def ckPortOutByte (v : Vga) (port : Nat) (data : Byte) : Vga :=
  if port = baseVideoPort then { v with index := data }
  else if port = baseVideoPort + 1 then { v with regs := Function.update v.regs v.index data }
  else v

/-- the port writes of `ckTerminalUpdateCursor_unsafe` -/
def outCursor (v : Vga) (pos : BitVec 16) : Vga :=
  let v := ckPortOutByte v baseVideoPort 0x0f
  let v := ckPortOutByte v (baseVideoPort + 1) (pos.setWidth 8)
  let v := ckPortOutByte v baseVideoPort 0x0e
  ckPortOutByte v (baseVideoPort + 1) ((pos >>> 8).setWidth 8)

/-- where the VGA shows the cursor -/
def Vga.cursor (v : Vga) : Nat := (v.regs 0x0e).toNat * 2^8 + (v.regs 0x0f).toNat

theorem outCursor_cursor (v : Vga) (s : Terminal) :
    (outCursor v (BitVec.ofNat 16 s.cursorPtr)).cursor = ( ckTerminalUpdateCursor_unsafe s).vgaCursor := by
  show (BitVec.setWidth 8 (BitVec.ofNat 16 s.cursorPtr >>> 8)).toNat * 2^8 +
    (BitVec.setWidth 8 (BitVec.ofNat 16 s.cursorPtr)).toNat = s.cursorPtr % 2^16
  simp only [BitVec.toNat_setWidth, BitVec.toNat_ushiftRight, BitVec.toNat_ofNat, Nat.shiftRight_eq_div_pow]
  omega

/-! ## following the cursor -/

/-- The registers hold the position of the cursor, as a `uint16_t`. -/
def Shown (s : Terminal) : Prop := s.vgaCursor = s.cursorPtr % 2^16

/-- the position has been written since the cursor moved -/
def Refreshes (s s' : Terminal) : Prop :=
  Shown s' ∨ s'.cursorRow = s.cursorRow ∧ s'.cursorColumn = s.cursorColumn ∧ s'.vgaCursor = s.vgaCursor

theorem Refreshes.still {s s' : Terminal} (hr : s'.cursorRow = s.cursorRow) (hc : s'.cursorColumn = s.cursorColumn)
    (hv : s'.vgaCursor = s.vgaCursor) : Refreshes s s' := Or.inr ⟨hr, hc, hv⟩

theorem Refreshes.refl (s : Terminal) : Refreshes s s := .still rfl rfl rfl

theorem Shown.congr {s s' : Terminal} (h : Shown s) (hr : s'.cursorRow = s.cursorRow)
    (hc : s'.cursorColumn = s.cursorColumn) (hv : s'.vgaCursor = s.vgaCursor) : Shown s' := by
  unfold Shown Terminal.cursorPtr
  rw [hr, hc, hv]
  exact h

theorem Refreshes.trans {s s' s'' : Terminal} (h : Refreshes s s') (h' : Refreshes s' s'') : Refreshes s s'' := by
  rcases h' with h' | ⟨hr', hc', hv'⟩
  · exact Or.inl h'
  · rcases h with h | ⟨hr, hc, hv⟩
    · exact Or.inl (h.congr hr' hc' hv')
    · exact .still (hr'.trans hr) (hc'.trans hc) (hv'.trans hv)

theorem updateCursor_shown (s : Terminal) : Shown ( ckTerminalUpdateCursor_unsafe s) := rfl

theorem csNewLine_shown (s : Terminal) : Shown (csNewLine s) := updateCursor_shown _

theorem csAddChar_shown (s : Terminal) (c : Byte) : Shown (csAddChar s c).2 := by
  unfold csAddChar
  split
  · split <;> exact updateCursor_shown _
  · exact updateCursor_shown _

theorem delete_shown (s : Terminal) : Shown ( ckTerminalDelete_unsafe s) := by
  unfold ckTerminalDelete_unsafe
  split <;> exact updateCursor_shown _

/-- a backspace that terminates -/
theorem backspace_shown {s s' : Terminal} (h : ckTerminalBackspace_unsafe s = some s') : Shown s' := by
  unfold ckTerminalBackspace_unsafe at h
  by_cases hc : s.cursorColumn ≠ 0
  · rw [if_pos hc] at h
    exact Option.some.inj h ▸ delete_shown _
  · rw [if_neg hc] at h
    by_cases hr : s.cursorRow ≠ 0
    · rw [if_pos hr] at h
      obtain ⟨_, h⟩ := Option.ite_none_left_eq_some.mp h
      exact Option.some.inj h ▸ updateCursor_shown _
    · rw [if_neg hr] at h
      exact Option.some.inj h ▸ updateCursor_shown _

theorem putChar_refreshes {s s' : Terminal} {c : Byte} {ret : Bool}
    (h : ckTerminalPutChar_unsafe s c = some (ret, s')) : Refreshes s s' := by
  unfold ckTerminalPutChar_unsafe at h
  by_cases hn : c = 0x0a
  · rw [if_pos hn] at h
    cases h
    exact Or.inl (csNewLine_shown s)
  · rw [if_neg hn] at h
    by_cases hb : c = 0x08
    · rw [if_pos hb] at h
      obtain ⟨s₁, h₁, e⟩ := Option.map_eq_some_iff.mp h
      cases e
      exact Or.inl (backspace_shown h₁)
    · rw [if_neg hb] at h
      by_cases h0 : c ≠ 0
      · rw [if_pos h0] at h
        obtain rfl : (csAddChar s c).2 = s' := congrArg Prod.snd (Option.some.inj h)
        exact Or.inl (csAddChar_shown s c)
      · rw [if_neg h0] at h
        cases h
        exact .refl s

theorem printString_refreshes {str : List Byte} : ∀ {s s' : Terminal}, ckTerminalPrintString s str = some s' →
    Refreshes s s' := by
  induction str with
  | nil =>
    intro s s' h
    cases h
    exact .refl s
  | cons c str ih =>
    intro s s' h
    unfold ckTerminalPrintString at h
    by_cases hc : c ≠ 0
    · rw [if_pos hc] at h
      obtain ⟨⟨ret, s₁⟩, h₁, h₂⟩ := Option.bind_eq_some_iff.mp h
      exact (putChar_refreshes h₁).trans (ih h₂)
    · rw [if_neg hc] at h
      cases h
      exact .refl s

/-! ## a key -/

theorem insertChar_refreshes {s s' : Terminal} {c : Byte} (h : insertChar s c = some s') : Refreshes s s' := by
  unfold insertChar at h
  split at h
  · cases h
  · cases h
    exact .refl s
  · rename_i ar _
    split at h
    · cases h
    · rename_i s₁ h₁
      have hput := putChar_refreshes h₁
      cases h
      exact Refreshes.trans (.still rfl rfl rfl) hput
    · rename_i s₁ h₁
      obtain ⟨ar', _, rfl⟩ := Option.map_eq_some_iff.mp h
      exact (putChar_refreshes h₁).trans (.still rfl rfl rfl)

theorem backspaceChar_refreshes {s s' : Terminal} (h : backspaceChar s = some s') : Refreshes s s' := by
  unfold backspaceChar at h
  split at h
  · split at h
    · cases h
    · exact Or.inl (backspace_shown h)
  · cases h
    exact .refl s

theorem deleteChar_refreshes {s s' : Terminal} (h : deleteChar s = some s') : Refreshes s s' := by
  unfold deleteChar at h
  split at h
  · obtain ⟨ar, _, rfl⟩ := Option.map_eq_some_iff.mp h
    exact Or.inl (delete_shown _)
  · cases h
    exact .refl s

theorem moveLeft_refreshes (s : Terminal) : Refreshes s (moveLeft s) := by
  unfold moveLeft
  split
  · exact Or.inl (updateCursor_shown _)
  · exact .refl s

theorem moveRight_refreshes (s : Terminal) : Refreshes s (moveRight s) := by
  unfold moveRight
  split
  · exact Or.inl (updateCursor_shown _)
  · exact .refl s

theorem enterLine_shown (s : Terminal) : Shown (enterLine s) := by
  apply (csNewLine_shown s).congr
  all_goals
    rw [enterLine_eq]
    rfl

theorem editLine_refreshes {s s' : Terminal} {cascii : Byte} (h : editLine s cascii = some s') : Refreshes s s' := by
  unfold editLine at h
  split at h
  · split at h
    · cases h
      exact Or.inl (enterLine_shown s)
    · split at h
      · cases h
        exact Or.inl (updateCursor_shown _)
      · split at h
        · exact backspaceChar_refreshes h
        · split at h
          · exact insertChar_refreshes h
          · cases h
            exact .refl s
  · split at h
    · exact deleteChar_refreshes h
    · split at h
      · cases h
        exact moveLeft_refreshes s
      · split at h
        · cases h
          exact moveRight_refreshes s
        · cases h
          exact .refl s

theorem onInput_refreshes {s s' : Terminal} {cascii : Byte} (h : ckTerminalOnInput s cascii = some s') :
    Refreshes s s' := by
  cases hstat : s.termStat with
  | waiting =>
    rw [onInput_waiting hstat] at h
    cases h
    exact .still rfl rfl rfl
  | stringInputing =>
    rw [ckTerminalOnInput_editLine hstat] at h
    obtain ⟨s₁, h₁, rfl⟩ := Option.map_eq_some_iff.mp h
    exact .trans (.still rfl rfl rfl) ((editLine_refreshes h₁).trans (.still rfl rfl rfl))

/-! ## the public functions -/

/-- The calls of terminal.c, each under `s_TermMutex`.  A call of `ckTerminalGetLine` or `ckTerminalGetch` is its
critical section. -/
inductive TermOp where
  | putChar (c : Byte)
  | printString (str : List Byte)
  | delete
  | backspace
  | cls
  | gotoXY (x y : BitVec 16)
  | onInput (cascii : Byte)
  | setStatus (stat : TermStatus)
  | setColor (color : Byte)
  | clearLineBuffer
  | clearInputBuffer
  | clearHitKeyBuffer
  | clearAllBuffers
  | getLine (size : Nat)
  | getch

/-- `none` if the call does not come back -/
def TermOp.exec (s : Terminal) : TermOp → Option Terminal
  | .putChar c => ( ckTerminalPutChar_unsafe s c).map Prod.snd
  | .printString str => ckTerminalPrintString s str
  | .delete => some ( ckTerminalDelete_unsafe s)
  | .backspace => ckTerminalBackspace_unsafe s
  | .cls => some ( ckTerminalCls_unsafe s)
  | .gotoXY x y => some (ckTerminalGotoXY s x y)
  | .onInput cascii => ckTerminalOnInput s cascii
  | .setStatus stat => some (ckTerminalSetStatus s stat)
  | .setColor color => some (ckTerminalSetColor s color)
  | .clearLineBuffer => some ( ckTerminalClearLineBuffer_unsafe s)
  | .clearInputBuffer => some ( ckTerminalClearInputBuffer_unsafe s)
  | .clearHitKeyBuffer => some ( ckTerminalClearHitKeyBuffer_unsafe s)
  | .clearAllBuffers => some (ckTerminalClearAllBuffers s)
  | .getLine size => (Clubcos.getLine s size).map Prod.snd
  | .getch => some (Clubcos.getch s).2.2

theorem getLine_refreshes {s s' : Terminal} {size : Nat} {buf : List Byte} (h : getLine s size = some (buf, s')) :
    Refreshes s s' := by
  unfold getLine at h
  split at h
  · cases h
  · cases h
    split <;> exact .still rfl rfl rfl

theorem getch_refreshes (s : Terminal) : Refreshes s (getch s).2.2 := by
  unfold getch
  simp only []
  split <;> exact .still rfl rfl rfl

/-- **Every operation but `ckTerminalCls`** writes the registers after it has moved the cursor. -/
theorem exec_refreshes {s s' : Terminal} {op : TermOp} (hop : op ≠ .cls) (h : op.exec s = some s') :
    Refreshes s s' := by
  cases op with
  | putChar c =>
    obtain ⟨⟨ret, s₁⟩, h₁, rfl⟩ := Option.map_eq_some_iff.mp h
    exact putChar_refreshes h₁
  | printString str => exact printString_refreshes h
  | delete =>
    cases h
    exact Or.inl (delete_shown s)
  | backspace => exact Or.inl (backspace_shown h)
  | cls => exact absurd rfl hop
  | gotoXY x y =>
    cases h
    exact Or.inl (updateCursor_shown _)
  | onInput cascii => exact onInput_refreshes h
  | getLine size =>
    obtain ⟨⟨buf, s₁⟩, h₁, rfl⟩ := Option.map_eq_some_iff.mp h
    exact getLine_refreshes h₁
  | getch =>
    cases h
    exact getch_refreshes s
  | setStatus _ | setColor _ | clearLineBuffer | clearInputBuffer | clearHitKeyBuffer | clearAllBuffers =>
    cases h
    exact .still rfl rfl rfl

/-! ## runs -/

/-- the cursor is shown after a call that has moved it -/
def ShownIfMoved (s : Terminal) (op : TermOp) (s' : Terminal) : Prop :=
  s'.cursorRow ≠ s.cursorRow ∨ s'.cursorColumn ≠ s.cursorColumn → Shown s'

/-- `ckTerminalCls` is called with the cursor at the origin: at position 0, as a `uint16_t` -/
def ClsAtOrigin (s : Terminal) (op : TermOp) (s' : Terminal) : Prop := op = .cls → s.cursorPtr % 2^16 = 0

theorem cls_shown_iff (s : Terminal) : ShownIfMoved s .cls ( ckTerminalCls_unsafe s) ↔ s.cursorPtr % 2^16 = 0 := by
  have hshown : Shown ( ckTerminalCls_unsafe s) ↔ s.cursorPtr % 2^16 = 0 := Iff.rfl
  unfold ShownIfMoved
  rw [hshown]
  refine ⟨fun h => ?_, fun h _ => h⟩
  by_cases hm : (0 : Nat) ≠ s.cursorRow ∨ 0 ≠ s.cursorColumn
  · exact h hm
  · obtain ⟨hr, hc⟩ := not_or.mp hm
    unfold Terminal.cursorPtr
    rw [← not_not.mp hr, ← not_not.mp hc]
    rfl

theorem exec_shown_iff {s s' : Terminal} {op : TermOp} (h : op.exec s = some s') :
    ShownIfMoved s op s' ↔ ClsAtOrigin s op s' := by
  by_cases hop : op = .cls
  · subst hop
    cases h
    exact (cls_shown_iff s).trans ⟨fun h _ => h, fun h => h rfl⟩
  · refine iff_of_true (fun hm => ?_) fun e => absurd e hop
    rcases exec_refreshes hop h with hs | ⟨hr, hc, _⟩
    · exact hs
    · exact absurd hm (by simp [hr, hc])

/-- a call at the origin keeps the cursor shown, whether or not it moves it -/
theorem exec_shown {s s' : Terminal} {op : TermOp} (h : op.exec s = some s') (hc : ClsAtOrigin s op s')
    (hs : Shown s) : Shown s' := by
  by_cases hop : op = .cls
  · subst hop
    cases h
    exact hc rfl
  · rcases exec_refreshes hop h with hs' | ⟨hr, hcol, hv⟩
    · exact hs'
    · exact hs.congr hr hcol hv

/-- **The hardware cursor shows the software cursor** after each call of a run that moves it if and only if every
`ckTerminalCls` of the run is called at the origin; and then it does so in every state. -/
theorem cursor_shown (screen : Nat → Cell) (ops : List TermOp) :
    (Machine.Along TermOp.exec ShownIfMoved (ckTerminalInitialize (.zero screen)) ops ↔
      Machine.Along TermOp.exec ClsAtOrigin (ckTerminalInitialize (.zero screen)) ops) ∧
    (Machine.Along TermOp.exec ClsAtOrigin (ckTerminalInitialize (.zero screen)) ops →
      Machine.Along TermOp.exec (fun _ _ s' => Shown s' ∧
        (s'.cursorPtr < 2^16 → s'.vgaCursor = s'.cursorRow * terminalWidth + s'.cursorColumn))
        (ckTerminalInitialize (.zero screen)) ops) := by
  constructor
  · apply Machine.along_iff
    intro s op s' h
    exact exec_shown_iff h
  · intro h
    have hboot : Shown (ckTerminalInitialize (.zero screen)) := rfl
    refine (Machine.along_iff ?_).mp (h.keeps (fun s op s' => exec_shown) hboot)
    intro s op s' _
    exact ⟨fun hs => ⟨hs, fun hlt => hs.trans (Nat.mod_eq_of_lt hlt)⟩, fun hs => hs.1⟩

/-- A character, and the screen is cleared: what is shown is the position after the character. -/
theorem cls_hides : ¬ Machine.Along TermOp.exec ShownIfMoved (ckTerminalInitialize (.zero fun _ => 0))
    [.putChar 0x41, .cls] := by
  intro h
  obtain ⟨_, h⟩ := h _ rfl
  have hcls := (cls_shown_iff _).mp (h _ rfl).1
  exact absurd hcls (by decide)

end Clubcos
