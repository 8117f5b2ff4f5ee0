import Clubcos.Terminal.Screen

/-!
# Lines typed and lines read

Keys come in between any two steps of the calls of `ckTerminalGetLine`, of which there may be many at once.

* `LineInv`          `s_InputArray` holds the pending lines, and every call past `s_LineEvent` has its line;
* `lines_read`       **the strings returned are the lines typed, in order, and none is missing**, as long as
                     every line that is pending behind the one that is read is empty;
* `two_lines_read`   the second of two pending lines is lost.
-/

set_option linter.unusedVariables false

namespace Clubcos
open Word

/-! ## the screen while a line is typed -/

/-- the cursor is at the end of the input, within the 24 rows -/
structure OnScreen (s : Terminal) : Prop where
  row : s.cursorRow = s.endRow
  column : s.cursorColumn = s.endColumn
  height : s.endRow < terminalHeight
  width : s.endColumn < terminalWidth

/-- only the screen differs -/
structure SameInput (s s' : Terminal) : Prop where
  stat : s'.termStat = s.termStat
  ptr : s'.lineBufPtr = s.lineBufPtr
  line : s'.lineBufArray = s.lineBufArray
  input : s'.inputArray = s.inputArray
  event : s'.lineEvent = s.lineEvent

theorem SameInput.refl (s : Terminal) : SameInput s s := ⟨rfl, rfl, rfl, rfl, rfl⟩

theorem SameInput.trans {s s₁ s₂ : Terminal} (h1 : SameInput s s₁) (h2 : SameInput s₁ s₂) : SameInput s s₂ :=
  ⟨h2.stat.trans h1.stat, h2.ptr.trans h1.ptr, h2.line.trans h1.line, h2.input.trans h1.input, h2.event.trans h1.event⟩

theorem SameInput.screen (s : Terminal) (cells : Nat → Cell) (row column endRow endColumn vga : Nat) :
    SameInput s { s with
      termBuffer := cells, cursorRow := row, cursorColumn := column, endRow := endRow, endColumn := endColumn
      vgaCursor := vga } := ⟨rfl, rfl, rfl, rfl, rfl⟩

theorem csNewLine_sameInput (s : Terminal) : SameInput s (csNewLine s) := by
  unfold csNewLine
  simp only []
  split
  · exact .screen s _ _ _ _ _ _
  · exact .screen s _ _ _ _ _ _

theorem csAddChar_sameInput (s : Terminal) (c : Byte) : SameInput s (csAddChar s c).2 := by
  unfold csAddChar
  split
  · split
    · exact .screen s _ _ _ _ _ _
    · exact .screen s _ _ _ _ _ _
  · exact .screen s _ _ _ _ _ _

theorem csNewLine_onScreen {s : Terminal} (hs : OnScreen s) : OnScreen (csNewLine s) := by
  have hh := hs.height
  have hinc : inc16 s.endRow = s.endRow + 1 := inc16_of_lt (by unfold terminalHeight at hh; omega)
  unfold csNewLine
  simp only [hinc]
  by_cases e : s.endRow + 1 = terminalHeight
  · have hdec : dec16 (s.endRow + 1) = s.endRow := dec16_of_pos (Nat.succ_pos _) (by unfold terminalHeight at hh; omega)
    rw [if_pos e]
    refine ⟨rfl, rfl, ?_, (by decide : 0 < terminalWidth)⟩
    show dec16 (s.endRow + 1) < terminalHeight
    rw [hdec]
    exact hh
  · rw [if_neg e]
    exact ⟨rfl, rfl, by show s.endRow + 1 < terminalHeight; omega, (by decide : 0 < terminalWidth)⟩

theorem putCell_onScreen {s : Terminal} (hs : OnScreen s) (c : Byte)
    (hlast : ¬ (s.endRow = terminalHeight - 1 ∧ s.endColumn = terminalWidth - 1)) :
    OnScreen (putCell s c) := by
  obtain ⟨h1, h2⟩ := nextCell_lt hs.height hs.width hlast
  refine ⟨?_, ?_, h1, h2⟩
  · show (nextCell s.cursorRow s.cursorColumn).1 = (nextCell s.endRow s.endColumn).1
    rw [hs.row, hs.column]
  · show (nextCell s.cursorRow s.cursorColumn).2 = (nextCell s.endRow s.endColumn).2
    rw [hs.row, hs.column]

/-- a character always finds room: in the last cell the screen is scrolled -/
theorem csAddChar_onScreen {s : Terminal} (hs : OnScreen s) (c : Byte) :
    (csAddChar s c).1 = true ∧ OnScreen (csAddChar s c).2 := by
  unfold csAddChar
  by_cases hlast : s.endRow = terminalHeight - 1 ∧ s.endColumn = terminalWidth - 1
  · have hrow : s.cursorRow = terminalHeight - 1 := hs.row.trans hlast.1
    have h0 : s.cursorRow ≠ 0 := by
      rw [hrow]
      decide
    rw [if_pos hlast, if_neg h0]
    let s₁ : Terminal := { csScrollScreen s with
      endRow := dec16 (csScrollScreen s).endRow, cursorRow := dec16 (csScrollScreen s).cursorRow }
    have hup : s₁.endRow = terminalHeight - 2 := by
      show dec16 s.endRow = _
      rw [hlast.1]
      decide
    have hs₁ : OnScreen s₁ := by
      refine ⟨?_, hs.column, ?_, hs.width⟩
      · show dec16 s.cursorRow = dec16 s.endRow
        rw [hs.row]
      · rw [hup]
        decide
    have h1 := putCell_onScreen hs₁ c fun h => by
      rw [hup] at h
      exact absurd h.1 (by decide)
    exact ⟨rfl, h1.row, h1.column, h1.height, h1.width⟩
  · rw [if_neg hlast]
    have h1 := putCell_onScreen hs c hlast
    exact ⟨rfl, h1.row, h1.column, h1.height, h1.width⟩

/-! ## keys -/

def Printable (c : Byte) : Prop := 0x20 ≤ c.toNat ∧ c.toNat ≤ 0x7e

instance (c : Byte) : Decidable (Printable c) := inferInstanceAs (Decidable (_ ∧ _))

/-- a printable character is none of the keys that the line editor treats in another way -/
theorem Printable.plain {c : Byte} (h : Printable c) : ckKeyIsAscii c = true ∧ c ≠ 0x0a ∧ c ≠ casciiEsc ∧
    c ≠ 0x08 ∧ iscntrl c = false ∧ c ≠ 0 := by
  revert c
  decide +kernel

theorem insertChar_spec {s : Terminal} (hs : OnScreen s) (hp : s.lineBufPtr = s.lineBufArray.now)
    (hn : s.lineBufArray.now ≠ s.lineBufArray.ends) {c : Byte} (hc : Printable c) :
    ∃ s', insertChar s c = some s' ∧ OnScreen s' ∧ SameInput { s with
      lineBufArray := { s.lineBufArray with
        mem := Function.update s.lineBufArray.mem s.lineBufArray.now c, now := s.lineBufArray.now + 1 }
      lineBufPtr := s.lineBufPtr + 1 } s' := by
  obtain ⟨_, hnl, _, hbs, _, h0⟩ := hc.plain
  let s₁ : Terminal := { s with
    lineBufArray := { s.lineBufArray with
      mem := Function.update s.lineBufArray.mem s.lineBufArray.now c, now := s.lineBufArray.now + 1 }
    lineBufPtr := s.lineBufPtr + 1 }
  obtain ⟨htrue, h1⟩ := csAddChar_onScreen (s := s₁) ⟨hs.row, hs.column, hs.height, hs.width⟩ c
  have hput : ckTerminalPutChar_unsafe s₁ c = some (true, (csAddChar s₁ c).2) := by
    unfold ckTerminalPutChar_unsafe
    rw [if_neg hnl, if_neg hbs, if_pos h0]
    exact congrArg some (Prod.ext htrue rfl)
  have hins : ckArray8Insert s.lineBufArray s.lineBufPtr c = some (true, s₁.lineBufArray) := by
    rw [hp]
    exact ckArray8Insert_now hn c
  exact ⟨(csAddChar s₁ c).2, insertChar_eq hins hput, h1, csAddChar_sameInput s₁ c⟩

theorem enterLine_spec {s : Terminal} (hs : OnScreen s)
    (hfit : s.inputArray.now + s.lineBufArray.now ≤ s.inputArray.ends) (hlt : s.inputArray.ends < 2^32) :
    OnScreen (enterLine s) ∧ (enterLine s).termStat = s.termStat ∧ (enterLine s).lineBufPtr = 0 ∧
      (enterLine s).lineBufArray = ckArray8Init s.lineBufArray lineBufferSize ∧
      (enterLine s).inputArray = { s.inputArray with
        mem := Function.update (memcpy s.inputArray.mem s.inputArray.now s.lineBufArray.mem 0 s.lineBufArray.now)
          (s.inputArray.now + s.lineBufArray.now) 0x0a
        now := s.inputArray.now + s.lineBufArray.now + 1 } ∧
      (enterLine s).lineEvent = ckBiSemPost s.lineEvent := by
  have h1 := csNewLine_onScreen hs
  have h2 := csNewLine_sameInput s
  have hrow : (csNewLine s).cursorRow < terminalHeight := h1.row ▸ h1.height
  have hcol : (csNewLine s).cursorColumn < terminalWidth := h1.column ▸ h1.width
  rw [enterLine_eq]
  refine ⟨⟨rfl, rfl, hrow, hcol⟩, h2.stat, rfl, congrArg (ckArray8Init · _) h2.line, ?_,
    congrArg ckBiSemPost h2.event⟩
  simp only [ ckTerminalClearLineBuffer_unsafe, h2.line, h2.input, ckArray8Append_fits hfit hlt]

/-! ## the calls -/

/-- the terminal, and the calls of `ckTerminalGetLine` that have not come back, each with its `size` -/
structure Session where
  term : Terminal
  /-- before `ckBiSemEnter(&s_LineEvent)` -/
  waiting : List Nat
  /-- between `ckBiSemEnter(&s_LineEvent)` and the critical section -/
  inside : List Nat
  typed : List Byte
  entered : List (List Byte)
  returned : List (List Byte)

inductive LineOp where
  | key (cascii : Byte)
  | call (size : Nat)
  /-- the `i`-th call that waits passes `s_LineEvent` -/
  | enter (i : Nat)
  /-- the critical section of the `i`-th call that has passed it -/
  | read (i : Nat)

def Session.exec (s : Session) : LineOp → Option Session
  | .key cascii =>
    (ckTerminalOnInput s.term cascii).map fun term =>
      if cascii = 0x0a then { s with term, typed := [], entered := s.entered ++ [s.typed] }
      else { s with term, typed := s.typed ++ [cascii] }
  | .call size =>
    some { s with term := ckTerminalSetStatus s.term .stringInputing, waiting := s.waiting ++ [size] }
  | .enter i =>
    match s.waiting[i]?, ckBiSemEnter s.term.lineEvent with
    | some size, some flag => some { s with
        term := { s.term with lineEvent := flag }
        waiting := s.waiting.eraseIdx i
        inside := s.inside ++ [size] }
    | _, _ => none
  | .read i =>
    match s.inside[i]? with
    | none => none
    | some size => (getLine s.term size).map fun r =>
        { s with term := r.2, inside := s.inside.eraseIdx i, returned := s.returned ++ [r.1] }

/-- the lines that no call has returned yet -/
def Session.pending (s : Session) : List (List Byte) := s.entered.drop s.returned.length

/-- the bytes of complete lines -/
def encode (ls : List (List Byte)) : List Byte := ls.flatMap (· ++ [0x0a])

/-- the calls that are made: lines of at most 249 printable characters, at most 1024 bytes pending, buffers
larger than the lines, and no call passes `s_LineEvent` while it is closed -/
def LineOp.Allowed (s : Session) : LineOp → Prop
  | .key cascii =>
    if cascii = 0x0a then (encode (s.pending ++ [s.typed])).length ≤ inputBufferSize
    else Printable cascii ∧ s.typed.length < lineBufferSize
  | .call size => size < 2^32
  | .enter i => i < s.waiting.length ∧ s.term.lineEvent = 0
  | .read i => i < s.inside.length ∧ ∀ size ∈ s.inside[i]?, ∀ l ∈ s.entered, l.length < size

/-- the lines behind the first pending one are empty; and if there are any, a line is pending for every call
that `s_LineEvent` will have let through -/
def Session.Clear (s : Session) : Prop :=
  (∀ l ∈ s.pending.tail, l = []) ∧
    (1 < s.pending.length → s.term.lineEvent = 0 ∨ s.inside.length < s.pending.length)

def LineOp.Clear (s : Session) : LineOp → Prop
  | .read _ => s.Clear
  | _ => True

def LineOp.Proper (s : Session) (op : LineOp) : Prop := op.Allowed s ∧ op.Clear s

/-- the terminal set up, ready for input -/
def Session.boot (screen : Nat → Cell) : Session :=
  ⟨ckTerminalSetStatus (ckTerminalInitialize (.zero screen)) .stringInputing, [], [], [], [], []⟩

inductive LineRun (ok : Session → LineOp → Prop) (s₀ : Session) : Session → Prop
  | start : LineRun ok s₀ s₀
  | step {s op s'} : LineRun ok s₀ s → ok s op → s.exec op = some s' → LineRun ok s₀ s'

/-! ## the invariant -/

theorem encode_append (ls ls' : List (List Byte)) : encode (ls ++ ls') = encode ls ++ encode ls' :=
  List.flatMap_append

theorem encode_cons (l : List Byte) (ls : List (List Byte)) : encode (l :: ls) = l ++ 0x0a :: encode ls := by
  rw [encode, List.flatMap_cons, List.append_assoc]
  rfl

theorem encode_eq_nil {ls : List (List Byte)} : encode ls = [] ↔ ls = [] := by
  cases ls with
  | nil => exact iff_of_true rfl rfl
  | cons l ls => exact iff_of_false (by rw [encode_cons]; exact List.append_ne_nil_of_right_ne_nil _ (List.cons_ne_nil _ _)) (List.cons_ne_nil _ _)

/-- empty lines are all alike, so that one newline too many in front of them does not matter -/
theorem encode_empty : ∀ {ls : List (List Byte)}, (∀ l ∈ ls, l = []) → 0x0a :: encode ls = encode ls ++ [0x0a]
  | [], _ => rfl
  | l :: ls, h => by
    rw [encode_cons, h l List.mem_cons_self, List.nil_append, List.cons_append,
      encode_empty fun l hl => h l (List.mem_cons_of_mem _ hl)]

/-- **The buffers hold what is typed and what is pending, and the calls that `s_LineEvent` lets through have
their lines.** -/
structure LineInv (s : Session) : Prop where
  stat : s.term.termStat = .stringInputing
  screen : OnScreen s.term
  ptr : s.term.lineBufPtr = s.term.lineBufArray.now
  line : s.term.lineBufArray.Contains s.typed lineBufferSize
  input : s.term.inputArray.Contains (encode s.pending) inputBufferSize
  fits : s.typed.length ≤ lineBufferSize ∧ (encode s.pending).length ≤ inputBufferSize
  short : ∀ l ∈ s.entered, l.length ≤ lineBufferSize
  printable : (∀ c ∈ s.typed, Printable c) ∧ ∀ l ∈ s.entered, ∀ c ∈ l, Printable c
  returned : s.returned <+: s.entered
  sizes : (∀ size ∈ s.waiting, size < 2^32) ∧ ∀ size ∈ s.inside, size < 2^32
  flag : s.term.lineEvent ≤ 1
  posted : s.term.lineEvent = 0 → s.inside.length + 1 ≤ s.pending.length
  inside : s.inside.length ≤ s.pending.length
  woken : s.pending ≠ [] → s.term.lineEvent = 1 → s.inside ≠ []

theorem Session.pending_enter {s : Session} (h : s.returned <+: s.entered) (l : List Byte) :
    (s.entered ++ [l]).drop s.returned.length = s.pending ++ [l] :=
  List.drop_append_of_le_length h.length_le

/-- a character of a line that is not full -/
theorem LineInv.character {s : Session} (hi : LineInv s) {c : Byte} (hc : Printable c)
    (hroom : s.typed.length < lineBufferSize) : ∃ s', s.exec (.key c) = some s' ∧ LineInv s' ∧
      s'.entered = s.entered ∧ s'.returned = s.returned := by
  obtain ⟨hascii, hnl, hesc, hbs, hcntrl, _⟩ := hc.plain
  let s₁ : Terminal := { s.term with
    hitKeyQueue := (ckCircularQueue8Put s.term.hitKeyQueue c).2
    hitEvent := ckBiSemPost s.term.hitEvent
    termStat := .waiting }
  have hscreen : OnScreen s₁ := ⟨hi.screen.row, hi.screen.column, hi.screen.height, hi.screen.width⟩
  have hfull : s₁.lineBufArray.now ≠ s₁.lineBufArray.ends := by
    show s.term.lineBufArray.now ≠ s.term.lineBufArray.ends
    rw [hi.line.now, hi.line.ends]
    omega
  obtain ⟨s₂, hins, hscreen₂, hsame⟩ := insertChar_spec hscreen hi.ptr hfull hc
  have hedit : editLine s₁ c = some s₂ := by
    unfold editLine
    rw [if_pos hascii, if_neg hnl, if_neg hesc, if_neg hbs, if_pos (by rw [hcntrl]; exact Bool.false_ne_true)]
    exact hins
  have hexec : s.exec (.key c) = some { s with
      term := { s₂ with termStat := .stringInputing }, typed := s.typed ++ [c] } := by
    show Option.map _ _ = _
    rw [ckTerminalOnInput_editLine hi.stat, hedit]
    simp only [Option.map_some, if_neg hnl]
  refine ⟨_, hexec, ?_, rfl, rfl⟩
  exact { hi with
    stat := rfl
    screen := ⟨hscreen₂.row, hscreen₂.column, hscreen₂.height, hscreen₂.width⟩
    ptr := by
      show s₂.lineBufPtr = s₂.lineBufArray.now
      rw [hsame.ptr, hsame.line]
      exact congrArg (· + 1) hi.ptr
    line := by
      show s₂.lineBufArray.Contains _ _
      rw [hsame.line]
      refine ⟨?_, hi.line.ends, ?_⟩
      · show s.term.lineBufArray.now + 1 = _
        rw [hi.line.now, List.length_append, List.length_singleton]
      · show Holds (Function.update s.term.lineBufArray.mem s.term.lineBufArray.now c) _
        rw [hi.line.now]
        exact hi.line.holds.snoc c
    input := by
      show s₂.inputArray.Contains _ _
      rw [hsame.input]
      exact hi.input
    fits := by
      refine ⟨?_, hi.fits.2⟩
      rw [List.length_append, List.length_singleton]
      exact hroom
    printable := by
      refine ⟨?_, hi.printable.2⟩
      intro c' hc'
      rcases List.mem_append.mp hc' with h | h
      · exact hi.printable.1 c' h
      · exact List.mem_singleton.mp h ▸ hc
    flag := hsame.event ▸ hi.flag
    posted := by
      show s₂.lineEvent = 0 → _
      rw [hsame.event]
      exact hi.posted
    woken := by
      show _ → s₂.lineEvent = 1 → _
      rw [hsame.event]
      exact hi.woken
  }

/-- the end of a line: it becomes pending -/
theorem LineInv.newline {s : Session} (hi : LineInv s)
    (hroom : (encode (s.pending ++ [s.typed])).length ≤ inputBufferSize) :
    ∃ s', s.exec (.key 0x0a) = some s' ∧ LineInv s' ∧ s'.entered = s.entered ++ [s.typed] ∧
      s'.returned = s.returned := by
  let s₁ : Terminal := { s.term with
    hitKeyQueue := (ckCircularQueue8Put s.term.hitKeyQueue 0x0a).2
    hitEvent := ckBiSemPost s.term.hitEvent
    termStat := .waiting }
  have hscreen : OnScreen s₁ := ⟨hi.screen.row, hi.screen.column, hi.screen.height, hi.screen.width⟩
  have hbytes : encode (s.pending ++ [s.typed]) = encode s.pending ++ s.typed ++ [0x0a] := by
    rw [encode_append, encode_cons, List.append_assoc]
    rfl
  have hlen : (encode s.pending).length + s.typed.length + 1 ≤ inputBufferSize := by
    rw [hbytes] at hroom
    simpa only [List.length_append, List.length_singleton] using hroom
  obtain ⟨hscreen₂, hstat, hptr, hline, hinput, hevent⟩ := enterLine_spec (s := s₁) hscreen
    (by
      show s.term.inputArray.now + s.term.lineBufArray.now ≤ s.term.inputArray.ends
      rw [hi.input.now, hi.line.now, hi.input.ends]
      omega)
    (by
      show s.term.inputArray.ends < 2^32
      rw [hi.input.ends]
      decide)
  have hexec : s.exec (.key 0x0a) = some { s with
      term := { enterLine s₁ with termStat := .stringInputing }, typed := [], entered := s.entered ++ [s.typed] } := by
    show Option.map _ _ = _
    rw [ckTerminalOnInput_editLine hi.stat]
    rfl
  have hpending : (s.entered ++ [s.typed]).drop s.returned.length = s.pending ++ [s.typed] :=
    Session.pending_enter hi.returned s.typed
  have hpost : (enterLine s₁).lineEvent = 0 := hevent.trans (ckBiSemPost_le hi.flag)
  have hinside := hi.inside
  refine ⟨_, hexec, ?_, rfl, rfl⟩
  exact {
    stat := rfl
    screen := ⟨hscreen₂.row, hscreen₂.column, hscreen₂.height, hscreen₂.width⟩
    ptr := by
      show (enterLine s₁).lineBufPtr = (enterLine s₁).lineBufArray.now
      rw [hptr, hline]
      rfl
    line := by
      show (enterLine s₁).lineBufArray.Contains [] lineBufferSize
      rw [hline]
      exact ⟨rfl, rfl, holds_nil _⟩
    input := by
      show (enterLine s₁).inputArray.Contains (encode ((s.entered ++ [s.typed]).drop s.returned.length)) _
      rw [hpending, hbytes, hinput]
      refine ⟨?_, hi.input.ends, ?_⟩
      · show s.term.inputArray.now + s.term.lineBufArray.now + 1 = _
        rw [hi.input.now, hi.line.now]
        simp only [List.length_append, List.length_singleton]
      · show Holds (Function.update (memcpy s.term.inputArray.mem s.term.inputArray.now s.term.lineBufArray.mem 0
          s.term.lineBufArray.now) (s.term.inputArray.now + s.term.lineBufArray.now) 0x0a) _
        rw [hi.input.now, hi.line.now, ← List.length_append]
        exact (hi.input.holds.memcpy hi.line.holds).snoc _
    fits := by
      refine ⟨Nat.zero_le _, ?_⟩
      show (encode ((s.entered ++ [s.typed]).drop s.returned.length)).length ≤ _
      rw [hpending]
      exact hroom
    short l hl := by
      rcases List.mem_append.mp hl with h | h
      · exact hi.short l h
      · exact List.mem_singleton.mp h ▸ hi.fits.1
    printable := by
      refine ⟨fun c hc => absurd hc List.not_mem_nil, ?_⟩
      intro l hl
      rcases List.mem_append.mp hl with h | h
      · exact hi.printable.2 l h
      · exact List.mem_singleton.mp h ▸ hi.printable.1
    returned := hi.returned.trans (List.prefix_append _ _)
    sizes := hi.sizes
    flag := by
      show (enterLine s₁).lineEvent ≤ 1
      rw [hpost]
      exact Nat.zero_le 1
    posted _ := by
      show s.inside.length + 1 ≤ ((s.entered ++ [s.typed]).drop s.returned.length).length
      rw [hpending, List.length_append, List.length_singleton]
      omega
    inside := by
      show s.inside.length ≤ ((s.entered ++ [s.typed]).drop s.returned.length).length
      rw [hpending, List.length_append, List.length_singleton]
      omega
    woken := fun _ h => absurd (hpost.symm.trans h) (by decide)
  }

/-- what the critical section does while the first line is `l` and the lines behind it are empty -/
theorem getLine_spec {s : Terminal} {l : List Byte} {ls : List (List Byte)} {size : Nat}
    (hin : s.inputArray.Contains (encode (l :: ls)) inputBufferSize)
    (hfits : (encode (l :: ls)).length ≤ inputBufferSize) (hl : ∀ c ∈ l, Printable c) (hls : ∀ l ∈ ls, l = [])
    (hsize : l.length < size) (hlt : size < 2^32) :
    ∃ s', getLine s size = some (l, s') ∧ s'.inputArray.Contains (encode ls) inputBufferSize ∧
      s'.lineEvent = (if ls = [] then s.lineEvent else ckBiSemPost s.lineEvent) ∧
      s'.termStat = s.termStat ∧ (OnScreen s → OnScreen s') ∧ s'.lineBufPtr = s.lineBufPtr ∧
      s'.lineBufArray = s.lineBufArray := by
  obtain ⟨hnow, hends, hholds⟩ := hin
  have hbig : inputBufferSize < 2^32 := by decide
  rw [encode_cons] at hnow hfits hholds
  have hlen : l.length + ((encode ls).length + 1) ≤ inputBufferSize := by
    simpa only [List.length_append, List.length_cons] using hfits
  have hnow' : s.inputArray.now = l.length + ((encode ls).length + 1) := by
    rw [hnow, List.length_append, List.length_cons]
  have hfind : strchr s.inputArray.mem 0x0a inputBufferSize 0 = some l.length :=
    strchr_line (by decide) (fun c hc => ⟨(hl c hc).plain.2.1, (hl c hc).plain.2.2.2.2.2⟩) hholds (Nat.zero_le _)
      (by omega)
  have hmin : min l.length (sub32 size 1) = l.length := by
    rw [sub32_of_le (by omega) hlt]
    omega
  have hleft : sub32 s.inputArray.now l.length = (0x0a :: encode ls : List Byte).length := by
    rw [sub32_of_le (by omega) (by omega), hnow', List.length_cons]
    omega
  have hrest : sub32 s.inputArray.now (l.length + 1) = (encode ls).length := by
    rw [sub32_of_le (by omega) (by omega), hnow']
    omega
  have hbuf : (List.range l.length).map s.inputArray.mem = l := by
    refine List.ext_getElem (by rw [List.length_map, List.length_range]) fun i h1 h2 => ?_
    rw [List.getElem_map, List.getElem_range]
    exact hholds.append_left i h2
  have hmem : Holds (memmove s.inputArray.mem 0 l.length (0x0a :: encode ls : List Byte).length) (encode ls) := by
    have h := hholds.memmove
    rw [encode_empty hls] at h
    have hcount : (0x0a :: encode ls : List Byte).length = (encode ls ++ [0x0a]).length := by
      rw [encode_empty hls]
    rw [hcount]
    exact h.append_left
  let s₁ : Terminal := ckTerminalClearHitKeyBuffer_unsafe { s with inputArray := { s.inputArray with
    mem := memmove s.inputArray.mem 0 l.length (0x0a :: encode ls : List Byte).length
    now := (encode ls).length } }
  have hget : getLine s size = some (l,
      if s₁.inputArray.now ≠ 0 then { s₁ with lineEvent := ckBiSemPost s₁.lineEvent } else s₁) := by
    unfold getLine
    rw [hfind]
    simp only [hmin, hleft, hrest, hbuf]
    rfl
  have hpost : s₁.inputArray.now ≠ 0 ↔ ls ≠ [] := by
    show (encode ls).length ≠ 0 ↔ _
    rw [Ne, List.length_eq_zero_iff, encode_eq_nil]
  rw [hget]
  by_cases e : ls = []
  · rw [if_neg (fun h => hpost.mp h e), if_pos e]
    exact ⟨_, rfl, ⟨rfl, hends, hmem⟩, rfl, rfl, fun h => ⟨h.row, h.column, h.height, h.width⟩, rfl, rfl⟩
  · rw [if_pos (hpost.mpr e), if_neg e]
    exact ⟨_, rfl, ⟨rfl, hends, hmem⟩, rfl, rfl, fun h => ⟨h.row, h.column, h.height, h.width⟩, rfl, rfl⟩

/-- what a read makes of `s_LineEvent`: it is open when a line is left, and every call inside keeps its line -/
theorem LineInv.readEvent {s : Session} (hi : LineInv s) (hc : s.Clear) {l : List Byte} {ls : List (List Byte)}
    (hp : s.pending = l :: ls) (hpos : 0 < s.inside.length) {e : Nat}
    (he : e = if ls = [] then s.term.lineEvent else ckBiSemPost s.term.lineEvent) :
    e ≤ 1 ∧ (e = 0 → s.inside.length ≤ ls.length) ∧ s.inside.length - 1 ≤ ls.length ∧ (ls ≠ [] → e = 0) := by
  have hinside := hi.inside
  have hposted := hi.posted
  have hclear := hc.2
  rw [hp, List.length_cons] at hinside hposted hclear
  rw [he]
  by_cases hls : ls = []
  · rw [if_pos hls]
    refine ⟨hi.flag, fun h => ?_, by omega, fun h => absurd hls h⟩
    have := hposted h
    omega
  · rw [if_neg hls, ckBiSemPost_le hi.flag]
    have hlen : 0 < ls.length := List.length_pos_iff.mpr hls
    refine ⟨Nat.zero_le 1, fun _ => ?_, by omega, fun _ => rfl⟩
    rcases hclear (by omega) with h | hroom
    · have := hposted h
      omega
    · omega

/-- a call comes back with the first pending line -/
theorem LineInv.read {s : Session} (hi : LineInv s) {i size : Nat} (hsize : s.inside[i]? = some size)
    (hlong : ∀ l ∈ s.entered, l.length < size) (hc : s.Clear) : ∃ s', s.exec (.read i) = some s' ∧ LineInv s' ∧
      s'.Clear ∧ s'.entered = s.entered ∧ s'.pending = s.pending.tail ∧ s'.inside = s.inside.eraseIdx i := by
  have hmem := List.mem_of_getElem? hsize
  have hpos : 0 < s.pending.length := Nat.lt_of_lt_of_le (List.length_pos_of_mem hmem) hi.inside
  have hsplit : s.entered = s.returned ++ s.pending := List.prefix_iff_eq_append.mp hi.returned |>.symm
  cases hp : s.pending with
  | nil =>
    rw [hp] at hpos
    exact absurd hpos (Nat.lt_irrefl 0)
  | cons l ls =>
    rw [hp] at hsplit hpos
    have hl : l ∈ s.entered := by
      rw [hsplit]
      exact List.mem_append_right _ List.mem_cons_self
    have hls : ∀ l' ∈ ls, l' = [] := fun l' h => hc.1 l' (by rw [hp]; exact h)
    have hin := hi.input
    have hfits := hi.fits.2
    rw [hp] at hin hfits
    obtain ⟨t, hget, hinput, hevent, hstat, hscreen, hptr, hline⟩ := getLine_spec hin hfits (hi.printable.2 l hl)
      hls (hlong l hl) (hi.sizes.2 size hmem)
    have hpending : s.entered.drop (s.returned ++ [l]).length = ls := by
      rw [hsplit, List.append_cons s.returned l ls, List.drop_left]
    have hexec : s.exec (.read i) = some { s with
        term := t, inside := s.inside.eraseIdx i, returned := s.returned ++ [l] } := by
      show (match s.inside[i]? with | none => none | some size => _) = _
      rw [hsize]
      show Option.map _ _ = _
      rw [hget]
      rfl
    have hless : (s.inside.eraseIdx i).length = s.inside.length - 1 :=
      List.length_eraseIdx_of_lt (List.getElem?_eq_some_iff.mp hsize).1
    obtain ⟨hflag, hposted, hinside, hopen⟩ := hi.readEvent hc hp (List.length_pos_of_mem hmem) hevent
    refine ⟨_, hexec, ?_, ⟨?_, ?_⟩, rfl, hpending, rfl⟩
    · exact { hi with
        stat := hstat.trans hi.stat
        screen := hscreen hi.screen
        ptr := hptr.trans (hi.ptr.trans (congrArg Array8.now hline.symm))
        line := hline ▸ hi.line
        input := by
          show t.inputArray.Contains (encode (s.entered.drop (s.returned ++ [l]).length)) _
          rw [hpending]
          exact hinput
        fits := by
          refine ⟨hi.fits.1, ?_⟩
          show (encode (s.entered.drop (s.returned ++ [l]).length)).length ≤ _
          rw [hpending]
          rw [encode_cons, List.length_append, List.length_cons] at hfits
          omega
        returned := by
          show s.returned ++ [l] <+: s.entered
          rw [hsplit, List.append_cons s.returned l ls]
          exact List.prefix_append _ _
        sizes := ⟨hi.sizes.1, fun n h => hi.sizes.2 n (List.mem_of_mem_eraseIdx h)⟩
        flag := hflag
        posted := by
          show t.lineEvent = 0 → (s.inside.eraseIdx i).length + 1 ≤ (s.entered.drop (s.returned ++ [l]).length).length
          rw [hpending, hless, Nat.sub_add_cancel (List.length_pos_of_mem hmem)]
          exact hposted
        inside := by
          show (s.inside.eraseIdx i).length ≤ (s.entered.drop (s.returned ++ [l]).length).length
          rw [hpending, hless]
          exact hinside
        woken := by
          show s.entered.drop (s.returned ++ [l]).length ≠ [] → t.lineEvent = 1 → _
          rw [hpending]
          intro hne h
          exact absurd ((hopen hne).symm.trans h) (by decide)
      }
    · show ∀ l' ∈ (s.entered.drop (s.returned ++ [l]).length).tail, l' = []
      rw [hpending]
      exact fun l' h => hls l' (List.mem_of_mem_tail h)
    · show 1 < (s.entered.drop (s.returned ++ [l]).length).length → t.lineEvent = 0 ∨ _
      rw [hpending]
      exact fun h => Or.inl (hopen (List.length_pos_iff.mp (Nat.lt_of_succ_lt h)))

theorem LineInv.call {s : Session} (hi : LineInv s) {size : Nat} (hsize : size < 2^32) :
    ∃ s', s.exec (.call size) = some s' ∧ LineInv s' ∧ s'.entered = s.entered ∧ s'.returned = s.returned := by
  have hsizes : ∀ n ∈ s.waiting ++ [size], n < 2^32 := by
    intro n h
    rcases List.mem_append.mp h with h | h
    · exact hi.sizes.1 n h
    · exact List.mem_singleton.mp h ▸ hsize
  refine ⟨_, rfl, ?_, rfl, rfl⟩
  exact { hi with
    stat := rfl
    screen := ⟨hi.screen.row, hi.screen.column, hi.screen.height, hi.screen.width⟩
    sizes := ⟨hsizes, hi.sizes.2⟩
  }

theorem LineInv.enter {s : Session} (hi : LineInv s) {i : Nat} (hlt : i < s.waiting.length)
    (hopen : s.term.lineEvent = 0) : ∃ s', s.exec (.enter i) = some s' ∧ LineInv s' ∧
      s'.entered = s.entered ∧ s'.returned = s.returned ∧ s'.inside = s.inside ++ [s.waiting[i]] := by
  have hget : s.waiting[i]? = some s.waiting[i] := List.getElem?_eq_getElem hlt
  have hexec : s.exec (.enter i) = some { s with
      term := { s.term with lineEvent := 1 }
      waiting := s.waiting.eraseIdx i
      inside := s.inside ++ [s.waiting[i]] } := by
    show (match s.waiting[i]?, ckBiSemEnter s.term.lineEvent with
      | some size, some flag => some _
      | _, _ => none) = _
    rw [hget, hopen]
    rfl
  have hposted := hi.posted hopen
  refine ⟨_, hexec, ?_, rfl, rfl, rfl⟩
  exact { hi with
    screen := ⟨hi.screen.row, hi.screen.column, hi.screen.height, hi.screen.width⟩
    sizes := by
      refine ⟨fun n h => hi.sizes.1 n (List.mem_of_mem_eraseIdx h), fun n h => ?_⟩
      rcases List.mem_append.mp h with h | h
      · exact hi.sizes.2 n h
      · exact List.mem_singleton.mp h ▸ hi.sizes.1 _ (List.getElem_mem hlt)
    flag := Nat.le_refl 1
    posted := fun h => absurd h Nat.one_ne_zero
    inside := by
      show (s.inside ++ [s.waiting[i]]).length ≤ s.pending.length
      rw [List.length_append, List.length_singleton]
      exact hposted
    woken := fun _ _ => List.append_ne_nil_of_right_ne_nil _ (List.cons_ne_nil _ _)
  }

theorem LineInv.step {s : Session} (hi : LineInv s) {op : LineOp} (ho : op.Proper s) :
    ∃ s', s.exec op = some s' ∧ LineInv s' := by
  cases op with
  | key c =>
    have ha : if c = 0x0a then (encode (s.pending ++ [s.typed])).length ≤ inputBufferSize
        else Printable c ∧ s.typed.length < lineBufferSize := ho.1
    by_cases e : c = 0x0a
    · rw [if_pos e] at ha
      obtain ⟨s', h, hi', _⟩ := hi.newline ha
      exact ⟨s', e ▸ h, hi'⟩
    · rw [if_neg e] at ha
      obtain ⟨s', h, hi', _⟩ := hi.character ha.1 ha.2
      exact ⟨s', h, hi'⟩
  | call size =>
    obtain ⟨s', h, hi', _⟩ := hi.call ho.1
    exact ⟨s', h, hi'⟩
  | enter i =>
    obtain ⟨s', h, hi', _⟩ := hi.enter ho.1.1 ho.1.2
    exact ⟨s', h, hi'⟩
  | read i =>
    obtain ⟨⟨hlt, hlong⟩, hc⟩ : (i < s.inside.length ∧ _) ∧ s.Clear := ho
    have hget : s.inside[i]? = some s.inside[i] := List.getElem?_eq_getElem hlt
    obtain ⟨s', h, hi', _⟩ := hi.read hget (hlong _ hget) hc
    exact ⟨s', h, hi'⟩

/-! ## runs -/

theorem boot_lines (screen : Nat → Cell) : LineInv (.boot screen) where
  stat := rfl
  screen := ⟨rfl, rfl, (by decide : 0 < terminalHeight), (by decide : 0 < terminalWidth)⟩
  ptr := rfl
  line := ⟨rfl, rfl, holds_nil _⟩
  input := ⟨rfl, rfl, holds_nil _⟩
  fits := ⟨Nat.zero_le _, Nat.zero_le _⟩
  short := List.forall_mem_nil _
  printable := ⟨List.forall_mem_nil _, List.forall_mem_nil _⟩
  returned := List.nil_prefix
  sizes := ⟨List.forall_mem_nil _, List.forall_mem_nil _⟩
  flag := Nat.le_refl 1
  posted := fun h => absurd h Nat.one_ne_zero
  inside := Nat.le_refl 0
  woken := fun h => absurd rfl h

theorem LineRun.inv {s₀ s : Session} (h₀ : LineInv s₀) (h : LineRun LineOp.Proper s₀ s) : LineInv s := by
  induction h with
  | start => exact h₀
  | step _ ho he ih =>
    obtain ⟨s₁, he₁, hi₁⟩ := ih.step ho
    exact Option.some.inj (he₁.symm.trans he) ▸ hi₁

/-- a step of a call, none of the keyboard -/
def LineOp.OfCall : LineOp → Prop
  | .key _ => False
  | _ => True

theorem LineRun.trans {ok : Session → LineOp → Prop} {s₀ s₁ s₂ : Session} (h₁ : LineRun ok s₀ s₁)
    (h₂ : LineRun ok s₁ s₂) : LineRun ok s₀ s₂ := by
  induction h₂ with
  | start => exact h₁
  | step _ ho he ih => exact ih.step ho he

/-- a new call passes `s_LineEvent`, as no other call is past it -/
theorem LineInv.admit {s : Session} (hi : LineInv s) (hne : s.pending ≠ []) (hins : s.inside = []) :
    ∃ s', LineRun (fun s op => op.Proper s ∧ op.OfCall) s s' ∧ LineInv s' ∧ s'.entered = s.entered ∧
      s'.returned = s.returned ∧ s'.inside = [256] := by
  have hopen : s.term.lineEvent = 0 := by
    have hflag := hi.flag
    have hwoken : s.term.lineEvent ≠ 1 := fun h => hi.woken hne h hins
    omega
  obtain ⟨s₁, he₁, hi₁, hent₁, hret₁⟩ := hi.call (by decide : 256 < 2^32)
  obtain rfl : _ = s₁ := Option.some.inj he₁
  have hlt : s.waiting.length < (s.waiting ++ [256]).length := by
    rw [List.length_append, List.length_singleton]
    exact Nat.lt_succ_self _
  obtain ⟨s₂, he₂, hi₂, hent₂, hret₂, hins₂⟩ := hi₁.enter hlt hopen
  have hok₁ : LineOp.Proper s (.call 256) := ⟨(by decide : 256 < 2^32), trivial⟩
  have hok₂ : LineOp.Proper { s with
      term := ckTerminalSetStatus s.term .stringInputing, waiting := s.waiting ++ [256] } (.enter s.waiting.length) :=
    ⟨⟨hlt, hopen⟩, trivial⟩
  refine ⟨s₂, .step (.step .start ⟨hok₁, trivial⟩ he₁) ⟨hok₂, trivial⟩ he₂, hi₂, hent₂, hret₂, ?_⟩
  rw [hins₂, hins]
  exact congrArg (fun n => [n]) (List.getElem_concat_length rfl _)

/-- a call that is past `s_LineEvent` reads -/
theorem LineInv.readFirst {s : Session} (hi : LineInv s) (hc : s.Clear) (hne : s.inside ≠ [])
    (hlong : ∀ size ∈ s.inside, ∀ l ∈ s.entered, l.length < size) :
    ∃ s', LineRun (fun s op => op.Proper s ∧ op.OfCall) s s' ∧ LineInv s' ∧ s'.Clear ∧ s'.entered = s.entered ∧
      s'.pending = s.pending.tail ∧ ∀ size ∈ s'.inside, ∀ l ∈ s'.entered, l.length < size := by
  obtain ⟨size, rest, hcons⟩ := List.exists_cons_of_ne_nil hne
  have hget : s.inside[0]? = some size := by
    rw [hcons]
    rfl
  have hlong₀ := hlong size (List.mem_of_getElem? hget)
  obtain ⟨s', he, hi', hc', hent, hpend, hins⟩ := hi.read hget hlong₀ hc
  have ha : LineOp.Allowed s (.read 0) :=
    ⟨List.length_pos_iff.mpr hne, fun n hn => Option.some.inj (hget.symm.trans hn) ▸ hlong₀⟩
  exact ⟨s', .step .start ⟨⟨ha, hc⟩, trivial⟩ he, hi', hc', hent, hpend, fun n h l hl =>
    hlong n (List.mem_of_mem_eraseIdx (hins ▸ h)) l (hent ▸ hl)⟩

/-- the calls so far, and then one call after the other, return every line -/
theorem LineInv.drain (n : Nat) : ∀ {s : Session}, s.pending.length = n → LineInv s → s.Clear →
    (∀ size ∈ s.inside, ∀ l ∈ s.entered, l.length < size) →
    ∃ s', LineRun (fun s op => op.Proper s ∧ op.OfCall) s s' ∧ s'.entered = s.entered ∧ s'.returned = s.entered := by
  induction n with
  | zero =>
    intro s hn hi _ _
    have hnil : s.entered.drop s.returned.length = [] := List.length_eq_zero_iff.mp hn
    have hall := List.prefix_iff_eq_append.mp hi.returned
    rw [hnil, List.append_nil] at hall
    exact ⟨s, .start, rfl, hall⟩
  | succ n ih =>
    intro s hn hi hc hlong
    by_cases hins : s.inside = []
    · have hne : s.pending ≠ [] := List.ne_nil_of_length_eq_add_one hn
      obtain ⟨s₁, hrun₁, hi₁, hent₁, hret₁, hins₁⟩ := hi.admit hne hins
      have hpend₁ : s₁.pending = s.pending := by
        unfold Session.pending
        rw [hent₁, hret₁]
      have hc₁ : s₁.Clear := ⟨hpend₁ ▸ hc.1, fun h => Or.inr (by rw [hins₁]; exact h)⟩
      have hlong₁ : ∀ size ∈ s₁.inside, ∀ l ∈ s₁.entered, l.length < size := by
        intro size h l hl
        have hle := hi₁.short l hl
        rw [hins₁] at h
        obtain rfl := List.mem_singleton.mp h
        exact Nat.lt_of_le_of_lt hle (by decide)
      obtain ⟨s₂, hrun₂, hi₂, hc₂, hent₂, hpend₂, hlong₂⟩ :=
        hi₁.readFirst hc₁ (by rw [hins₁]; exact List.cons_ne_nil _ _) hlong₁
      obtain ⟨s', hrun, hent, hret⟩ := ih (by rw [hpend₂, List.length_tail, hpend₁, hn]; rfl) hi₂ hc₂ hlong₂
      have e := hent₂.trans hent₁
      exact ⟨s', (hrun₁.trans hrun₂).trans hrun, hent.trans e, hret.trans e⟩
    · obtain ⟨s₂, hrun₂, hi₂, hc₂, hent₂, hpend₂, hlong₂⟩ := hi.readFirst hc hins hlong
      obtain ⟨s', hrun, hent, hret⟩ := ih (by rw [hpend₂, List.length_tail, hn]; rfl) hi₂ hc₂ hlong₂
      exact ⟨s', hrun₂.trans hrun, hent.trans hent₂, hret.trans hent₂⟩

/-- **Lines typed are lines read**: in every run whose reads are all clear, the strings returned are a prefix
of the lines entered, every step comes back, and the calls return every line that is entered. -/
theorem lines_read {screen : Nat → Cell} {s : Session} (h : LineRun LineOp.Proper (.boot screen) s) :
    s.returned <+: s.entered ∧ (∀ op : LineOp, op.Proper s → ∃ s', s.exec op = some s') ∧
      (s.Clear → (∀ size ∈ s.inside, ∀ l ∈ s.entered, l.length < size) →
        ∃ s', LineRun (fun s op => op.Proper s ∧ op.OfCall) s s' ∧ s'.entered = s.entered ∧
          s'.returned = s.entered) := by
  have hi := h.inv (boot_lines screen)
  refine ⟨hi.returned, fun op ho => ?_, hi.drain _ rfl⟩
  obtain ⟨s', he, _⟩ := hi.step ho
  exact ⟨s', he⟩

/-! ## runs written out -/

instance LineOp.decidableAllowed (s : Session) (op : LineOp) : Decidable (op.Allowed s) := by
  cases op <;> unfold LineOp.Allowed <;> infer_instance

instance Session.decidableClear (s : Session) : Decidable s.Clear := inferInstanceAs (Decidable (_ ∧ _))

instance LineOp.decidableProper (s : Session) (op : LineOp) : Decidable (op.Proper s) := by
  cases op <;> unfold LineOp.Proper LineOp.Clear <;> infer_instance

def lineAll (ok : Session → LineOp → Prop) [∀ s op, Decidable (ok s op)] : List LineOp → Session → Option Session
  | [], s => some s
  | op :: ops, s => if ok s op then (s.exec op).bind (lineAll ok ops) else none

theorem lineAll_run {ok : Session → LineOp → Prop} [∀ s op, Decidable (ok s op)] {ops : List LineOp} :
    ∀ {s₀ s r : Session}, LineRun ok s₀ s → lineAll ok ops s = some r → LineRun ok s₀ r := by
  induction ops with
  | nil =>
    intro s₀ s r h e
    exact Option.some.inj e ▸ h
  | cons op ops ih =>
    intro s₀ s r h e
    unfold lineAll at e
    by_cases ho : ok s op
    · rw [if_pos ho] at e
      obtain ⟨s₁, e₁, e₂⟩ := Option.bind_eq_some_iff.mp e
      exact ih (h.step ho e₁) e₂
    · rw [if_neg ho] at e
      cases e

/-- the session that a list of steps leads to -/
def lineEnd (ok : Session → LineOp → Prop) [∀ s op, Decidable (ok s op)] (ops : List LineOp) : Option Session :=
  lineAll ok ops (.boot fun _ => 0)

/-- a line, and an empty line typed before the first one is read -/
def emptyLine : List LineOp :=
  [.key 0x61, .key 0x0a, .call 16, .enter 0, .key 0x0a, .read 0, .call 16, .enter 0, .read 0]

theorem emptyLine_some : (lineEnd LineOp.Proper emptyLine).isSome := by decide +kernel

theorem lines_read_emptyLine : ((lineEnd LineOp.Proper emptyLine).get emptyLine_some).returned <+:
    ((lineEnd LineOp.Proper emptyLine).get emptyLine_some).entered :=
  (lines_read (lineAll_run .start (Option.some_get emptyLine_some).symm)).1

/-- two lines typed before the first one is read -/
def twoLines : List LineOp :=
  [.key 0x61, .key 0x0a, .key 0x62, .key 0x0a, .call 16, .enter 0, .read 0, .call 16, .enter 0, .read 0]

theorem twoLines_some : (lineEnd LineOp.Allowed twoLines).isSome := by decide +kernel

/-- **Two pending lines**: the second call returns an empty string in place of the second line. -/
theorem two_lines_read : LineRun LineOp.Allowed (.boot fun _ => 0) ((lineEnd LineOp.Allowed twoLines).get twoLines_some) ∧
    ((lineEnd LineOp.Allowed twoLines).get twoLines_some).entered = [[0x61], [0x62]] ∧
    ((lineEnd LineOp.Allowed twoLines).get twoLines_some).returned = [[0x61], []] :=
  ⟨lineAll_run .start (Option.some_get twoLines_some).symm, by decide +kernel, by decide +kernel⟩

end Clubcos
