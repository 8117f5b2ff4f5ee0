import Clubcos.Terminal.Array

/-!
# terminal.c

One state holds the static variables of terminal.c and the screen.  Every public function runs under
`s_TermMutex` and is one step here; the mutex itself is left out, as are the status bar and the shape of the
cursor.

* the screen: `csScrollScreen`, `csNewLine`, `csAddChar`, `ckTerminalDelete_unsafe`,
  `ckTerminalBackspace_unsafe`, `csCancelInputing`, `ckTerminalPrintString`;
* the line editor: `ckTerminalOnInput`;
* the readers: `ckBiSemEnter` on `s_LineEvent`, then `getLine` or `getChar`, the critical section of `ckTerminalGetLine`
  or `ckTerminalGetChar`; `ckBiSemEnter` on `s_HitEvent`, then `getch`, that of `ckTerminalGetch`;
* the other public functions: `ckTerminalSetColor`, `ckTerminalGotoXY`, `ckTerminalClearAllBuffers`.
-/

set_option linter.unusedVariables false

namespace Clubcos
open Word

/-- an entry of the VGA text buffer: the color above the character -/
abbrev Cell : Type := BitVec 16

inductive TermStatus where
  | stringInputing
  | waiting
deriving DecidableEq

def terminalWidth : Nat := 80
def terminalHeight : Nat := 24
def terminalColorDefault : Byte := 7

structure Terminal where
  termBuffer : Nat → Cell
  cursorRow : Nat
  cursorColumn : Nat
  endRow : Nat
  endColumn : Nat
  termColor : Byte
  termStat : TermStatus
  lineBufPtr : Nat
  lineBufArray : Array8
  inputArray : Array8
  hitKeyQueue : CircularQueue8
  hitEvent : Nat
  lineEvent : Nat
  /-- the cursor position in the registers of the VGA -/
  vgaCursor : Nat

/-! ## 16-bit counters and pointer differences -/

def inc16 (n : Nat) : Nat := (n + 1) % 2^16

def dec16 (n : Nat) : Nat := (n + 0xffff) % 2^16

/-- the number of cells in `(b - a) * sizeof(uint16_t)` bytes -/
def cellCount (a b : Nat) : Nat := (((b : Int) - a) % 2^31).toNat

/-- `b - a` as a `size_t` -/
def sizeCount (a b : Nat) : Nat := (((b : Int) - a) % 2^32).toNat

/-! ## binary_semaphore.c -/

def ckBiSemPost (flag : Nat) : Nat := if flag = 1 then 0 else flag

theorem ckBiSemPost_le {flag : Nat} (h : flag ≤ 1) : ckBiSemPost flag = 0 := by
  unfold ckBiSemPost
  split <;> omega

def ckBiSemUnpost (flag : Nat) : Nat := if flag = 0 then 1 else flag

/-- `none` as long as the caller has to wait -/
def ckBiSemEnter (flag : Nat) : Option Nat := if flag = 0 then some 1 else none

/-! ## the screen -/

def csMakeVGAEntry (c color : Byte) : Cell := c.signExtend 16 ||| (color.setWidth 16 <<< 8)

/-- the character of an entry is its low byte -/
def Cell.isNull (c : Cell) : Bool := c.setWidth 8 == 0

def Terminal.cursorPtr (s : Terminal) : Nat := s.cursorRow * terminalWidth + s.cursorColumn

def Terminal.endPtr (s : Terminal) : Nat := s.endRow * terminalWidth + s.endColumn

def ckTerminalUpdateCursor_unsafe (s : Terminal) : Terminal := { s with vgaCursor := s.cursorPtr % 2^16 }

def csScrollScreen (s : Terminal) : Terminal :=
  let screen := memmove s.termBuffer 0 terminalWidth ((terminalHeight - 1) * terminalWidth)
  { s with
    termBuffer := memset_2 screen ((terminalHeight - 1) * terminalWidth) (csMakeVGAEntry 0 s.termColor)
      terminalWidth }

def csNewLine (s : Terminal) : Terminal :=
  let s := { s with endColumn := 0, endRow := inc16 s.endRow }
  let s := if s.endRow = terminalHeight then
      let s := csScrollScreen s
      { s with endRow := dec16 s.endRow }
    else s
  let s := { s with cursorColumn := s.endColumn, cursorRow := s.endRow }
  ckTerminalUpdateCursor_unsafe s

/-- a column that has been counted up, with its row -/
def nextCell (row column : Nat) : Nat × Nat :=
  if inc16 column = terminalWidth then (inc16 row, 0) else (row, inc16 column)

/-- the character at the cursor, the rest of the input moved one cell on -/
def putCell (s : Terminal) (c : Byte) : Terminal :=
  let screen := memmove s.termBuffer (s.cursorPtr + 1) s.cursorPtr (cellCount s.cursorPtr s.endPtr)
  let cursor := nextCell s.cursorRow s.cursorColumn
  let ends := nextCell s.endRow s.endColumn
  { s with
    termBuffer := Function.update screen s.cursorPtr (csMakeVGAEntry c s.termColor)
    cursorRow := cursor.1
    cursorColumn := cursor.2
    endRow := ends.1
    endColumn := ends.2 }

def csAddChar (s : Terminal) (c : Byte) : Bool × Terminal :=
  if s.endRow = terminalHeight - 1 ∧ s.endColumn = terminalWidth - 1 then
    if s.cursorRow = 0 then (false, ckTerminalUpdateCursor_unsafe s)
    else
      let s := csScrollScreen s
      let s := { s with endRow := dec16 s.endRow, cursorRow := dec16 s.cursorRow }
      (true, ckTerminalUpdateCursor_unsafe (putCell s c))
  else (true, ckTerminalUpdateCursor_unsafe (putCell s c))

/-- the search among the first `n` cells of a row, from the right -/
def findRightNotNull (screen : Nat → Cell) (row : Nat) : Nat → Nat
  | 0 => 0
  | n + 1 => if Cell.isNull (screen (row * terminalWidth + n)) then findRightNotNull screen row n else n + 1

def csFindRightNotNullCol (s : Terminal) (row : Nat) : Nat := findRightNotNull s.termBuffer row terminalWidth

def ckTerminalDelete_unsafe (s : Terminal) : Terminal :=
  if s.cursorPtr ≠ s.endPtr then
    let screen := memmove s.termBuffer s.cursorPtr (s.cursorPtr + 1) (cellCount s.cursorPtr s.endPtr)
    let s := { s with termBuffer := Function.update screen s.endPtr (screen s.endPtr &&& 0xff00) }
    let s := if s.endColumn ≠ 0 then { s with endColumn := dec16 s.endColumn }
      else
        let row := dec16 s.endRow
        { s with endRow := row, endColumn := csFindRightNotNullCol s row }
    ckTerminalUpdateCursor_unsafe s
  else ckTerminalUpdateCursor_unsafe s

/-- The loop at the end does not change the variable that it tests: once entered, it never ends. -/
def ckTerminalBackspace_unsafe (s : Terminal) : Option Terminal :=
  if s.cursorColumn ≠ 0 then
    some ( ckTerminalDelete_unsafe { s with cursorColumn := dec16 s.cursorColumn })
  else if s.cursorRow ≠ 0 then
    let oldCursorPtr := s.cursorPtr
    let endPtr := s.endPtr
    let row := dec16 s.cursorRow
    let s := { s with cursorRow := row, cursorColumn := csFindRightNotNullCol s row }
    let newCursorPtr := s.cursorPtr
    let diff := (((endPtr : Int) - oldCursorPtr) % 2^16).toNat
    let screen := memmove s.termBuffer newCursorPtr oldCursorPtr diff
    let s := { s with
      termBuffer := memset_2 screen (newCursorPtr + diff) (csMakeVGAEntry 0 s.termColor)
        (sizeCount (newCursorPtr + diff) endPtr)
      endRow := s.cursorRow
      endColumn := (s.cursorColumn + diff) % 2^16 }
    if s.cursorColumn < terminalWidth then none else some ( ckTerminalUpdateCursor_unsafe s)
  else some ( ckTerminalUpdateCursor_unsafe s)

def ckTerminalPutChar_unsafe (s : Terminal) (c : Byte) : Option (Bool × Terminal) :=
  if c = 0x0a then some (true, csNewLine s)
  else if c = 0x08 then ( ckTerminalBackspace_unsafe s).map fun s => (true, s)
  else if c ≠ 0 then some (csAddChar s c)
  else some (true, s)

/-- the bytes of a string, up to its `'\0'` -/
def ckTerminalPrintString (s : Terminal) : List Byte → Option Terminal
  | [] => some s
  | c :: str => if c ≠ 0 then ( ckTerminalPutChar_unsafe s c).bind fun r => ckTerminalPrintString r.2 str else some s

/-! ## the buffers -/

/-- `s_LineBuffer` has 250 bytes, and its last one is not used -/
def lineBufferSize : Nat := 250 - 1

def inputBufferSize : Nat := 1024

def hitKeyBufferSize : Nat := 1024

def ckTerminalClearLineBuffer_unsafe (s : Terminal) : Terminal :=
  { s with
    endColumn := s.cursorColumn
    endRow := s.cursorRow
    lineBufArray := ckArray8Init s.lineBufArray lineBufferSize
    lineBufPtr := 0 }

def ckTerminalClearInputBuffer_unsafe (s : Terminal) : Terminal :=
  { s with
    inputArray := ckArray8Init s.inputArray inputBufferSize
    lineEvent := ckBiSemUnpost s.lineEvent }

def ckTerminalClearHitKeyBuffer_unsafe (s : Terminal) : Terminal :=
  { s with
    hitKeyQueue := ckCircularQueue8Init s.hitKeyQueue hitKeyBufferSize
    hitEvent := ckBiSemUnpost s.hitEvent }

def ckTerminalCls_unsafe (s : Terminal) : Terminal :=
  let s := { s with
    termBuffer := memset_2 s.termBuffer 0 (csMakeVGAEntry 0 s.termColor) (terminalHeight * terminalWidth) }
  let s := ckTerminalClearLineBuffer_unsafe s
  let s := ckTerminalUpdateCursor_unsafe s
  { s with cursorRow := 0, cursorColumn := 0, endRow := 0, endColumn := 0 }

/-- the static variables before `ckTerminalInitialize`, and any screen -/
def Terminal.zero (screen : Nat → Cell) : Terminal where
  termBuffer := screen
  cursorRow := 0
  cursorColumn := 0
  endRow := 0
  endColumn := 0
  termColor := 0
  termStat := .waiting
  lineBufPtr := 0
  lineBufArray := ⟨fun _ => 0, 0, 0⟩
  inputArray := ⟨fun _ => 0, 0, 0⟩
  hitKeyQueue := ⟨fun _ => 0, 0, 0, 0, false⟩
  hitEvent := 0
  lineEvent := 0
  vgaCursor := 0

def ckTerminalInitialize (s : Terminal) : Terminal :=
  let s := { s with termColor := terminalColorDefault, hitEvent := 1, lineEvent := 1 }
  let s := ckTerminalClearInputBuffer_unsafe s
  let s := ckTerminalClearHitKeyBuffer_unsafe s
  let s := { s with inputArray := ckArray8Init s.inputArray inputBufferSize }
  ckTerminalCls_unsafe s

def ckTerminalSetStatus (s : Terminal) (stat : TermStatus) : Terminal := { s with termStat := stat }

/-! ## the line editor -/

def casciiEsc : Byte := 0x1b

def casciiDelete : List Byte := [0xad, 0x9d]

def casciiLeft : List Byte := [0xa7, 0x96]

def casciiRight : List Byte := [0xa8, 0x98]

def ckKeyIsAscii (cascii : Byte) : Bool := cascii &&& 0x80 == 0

/-- no character satisfies both conditions -/
def iscntrl (c : Byte) : Bool := decide (c.toNat ≤ 0x1f) && c.toNat == 0x7f

def cancelLoop : (rounds : Nat) → Int → Nat → Int × Nat
  | 0, col, row => (col, row)
  | rounds + 1, col, row => if col < 0 then cancelLoop rounds (col + terminalWidth) (dec16 row) else (col, row)

def csCancelInputing (s : Terminal) : Terminal :=
  let gap := s.lineBufArray.now % 2^16
  let (col, row) := cancelLoop gap ((s.cursorColumn : Int) - gap) s.cursorRow
  let s := { s with cursorColumn := (col % 2^16).toNat, cursorRow := row }
  let s := { s with
    termBuffer := memset_2 s.termBuffer s.cursorPtr (csMakeVGAEntry 0 s.termColor)
      (sizeCount s.cursorPtr s.endPtr) }
  ckTerminalUpdateCursor_unsafe ( ckTerminalClearLineBuffer_unsafe s)

/-- the typed line goes to `s_InputArray` -/
def enterLine (s : Terminal) : Terminal :=
  let s := csNewLine s
  let input := ckArray8Append s.inputArray s.lineBufArray
  let s := if s.lineBufArray.ends = s.lineBufArray.now then
      { s with lineBufArray := { s.lineBufArray with now := s.lineBufArray.now - 1 } }
    else s
  let s := { s with
    inputArray := { input with mem := Function.update input.mem input.now 0x0a, now := input.now + 1 }
    lineEvent := ckBiSemPost s.lineEvent }
  ckTerminalClearLineBuffer_unsafe s

/-- a character that is no control character -/
def insertChar (s : Terminal) (cascii : Byte) : Option Terminal :=
  match ckArray8Insert s.lineBufArray s.lineBufPtr cascii with
  | none => none
  | some (false, _) => some s
  | some (true, ar) =>
    match ckTerminalPutChar_unsafe { s with lineBufArray := ar, lineBufPtr := s.lineBufPtr + 1 } cascii with
    | none => none
    | some (true, s) => some s
    | some (false, s) =>
      (ckArray8Erase s.lineBufArray (s.lineBufPtr - 1)).map fun ar =>
        { s with lineBufArray := ar, lineBufPtr := s.lineBufPtr - 1 }

def backspaceChar (s : Terminal) : Option Terminal :=
  if s.lineBufPtr ≠ 0 then
    match ckArray8Erase s.lineBufArray (s.lineBufPtr - 1) with
    | none => none
    | some ar => ckTerminalBackspace_unsafe { s with lineBufArray := ar, lineBufPtr := s.lineBufPtr - 1 }
  else some s

def deleteChar (s : Terminal) : Option Terminal :=
  if s.lineBufPtr ≠ s.lineBufArray.now then
    (ckArray8Erase s.lineBufArray s.lineBufPtr).map fun ar => ckTerminalDelete_unsafe { s with lineBufArray := ar }
  else some s

def moveLeft (s : Terminal) : Terminal :=
  if s.lineBufPtr ≠ 0 then
    let s := { s with lineBufPtr := s.lineBufPtr - 1 }
    let s := if s.cursorColumn = 0 then
        { s with cursorRow := dec16 s.cursorRow, cursorColumn := terminalWidth - 1 }
      else { s with cursorColumn := dec16 s.cursorColumn }
    ckTerminalUpdateCursor_unsafe s
  else s

def moveRight (s : Terminal) : Terminal :=
  if s.lineBufPtr ≠ s.lineBufArray.now then
    let cursor := nextCell s.cursorRow s.cursorColumn
    ckTerminalUpdateCursor_unsafe { s with
      lineBufPtr := s.lineBufPtr + 1, cursorRow := cursor.1, cursorColumn := cursor.2 }
  else s

/-- a key in TERMINAL_STATUS_STRING_INPUTING -/
def editLine (s : Terminal) (cascii : Byte) : Option Terminal :=
  if ckKeyIsAscii cascii then
    if cascii = 0x0a then some (enterLine s)
    else if cascii = casciiEsc then some (csCancelInputing s)
    else if cascii = 0x08 then backspaceChar s
    else if ¬ iscntrl cascii then insertChar s cascii
    else some s
  else if cascii ∈ casciiDelete then deleteChar s
  else if cascii ∈ casciiLeft then some (moveLeft s)
  else if cascii ∈ casciiRight then some (moveRight s)
  else some s

/-- `none` is a failed assertion or a loop that does not end -/
def ckTerminalOnInput (s : Terminal) (cascii : Byte) : Option Terminal :=
  let s := { s with
    hitKeyQueue := (ckCircularQueue8Put s.hitKeyQueue cascii).2
    hitEvent := ckBiSemPost s.hitEvent }
  if s.termStat ≠ .stringInputing then some s
  else
    let oldStat := s.termStat
    (editLine { s with termStat := .waiting } cascii).map fun s => { s with termStat := oldStat }

/-! ## the reader -/

/-- The critical section of `ckTerminalGetLine`, with the `len` bytes that it puts into `buf`; `none` is a
failed assertion. -/
def getLine (s : Terminal) (size : Nat) : Option (List Byte × Terminal) :=
  match strchr s.inputArray.mem 0x0a inputBufferSize 0 with
  | none => none
  | some ends =>
    let len := min ends (sub32 size 1)
    let buf := (List.range len).map s.inputArray.mem
    let ar := { s.inputArray with
      mem := memmove s.inputArray.mem 0 len (sub32 s.inputArray.now len)
      now := sub32 s.inputArray.now (len + 1) }
    let s := ckTerminalClearHitKeyBuffer_unsafe { s with inputArray := ar }
    let s := if s.inputArray.now ≠ 0 then { s with lineEvent := ckBiSemPost s.lineEvent } else s
    some (buf, s)

/-- The critical section of `ckTerminalGetChar`; `none` is a failed assertion. -/
def getChar (s : Terminal) : Option (Byte × Terminal) :=
  (ckArray8PopFront s.inputArray).map fun (ret, ar) =>
    let s := ckTerminalClearHitKeyBuffer_unsafe { s with inputArray := ar }
    let s := if s.inputArray.now ≠ 0 then { s with lineEvent := ckBiSemPost s.lineEvent } else s
    (ret, s)

/-- The critical section of `ckTerminalGetch`: the key that it returns, and whether there was one. -/
def getch (s : Terminal) : Byte × Bool × Terminal :=
  let (ret, success, queue) := ckCircularQueue8Get s.hitKeyQueue false
  let s := { s with hitKeyQueue := queue }
  let s := if ¬ s.hitKeyQueue.bEmpty then { s with hitEvent := ckBiSemPost s.hitEvent } else s
  (ret, success, s)

/-! ## the other public functions -/

def ckTerminalSetColor (s : Terminal) (color : Byte) : Terminal := { s with termColor := color }

def ckTerminalGotoXY (s : Terminal) (x y : BitVec 16) : Terminal :=
  let s := ckTerminalClearLineBuffer_unsafe s
  let s := ckTerminalClearInputBuffer_unsafe s
  let s := { s with endColumn := x.toNat, cursorColumn := x.toNat, endRow := y.toNat, cursorRow := y.toNat }
  ckTerminalUpdateCursor_unsafe s

def ckTerminalClearAllBuffers (s : Terminal) : Terminal :=
  let s := ckTerminalClearHitKeyBuffer_unsafe s
  let s := ckTerminalClearInputBuffer_unsafe s
  ckTerminalClearLineBuffer_unsafe s

end Clubcos
