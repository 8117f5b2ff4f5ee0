import Clubcos.Terminal.Cancel

/-!
# The bounds of the input buffers

Keys, readers and the functions that clear the buffers, in any order.

* `InBuffers`        the pointers of both arrays lie in their buffers;
* `Bounded`          what a step is to do: `InBuffers`, nothing written behind `s_InputBuffer`, and an Enter accepts bytes
  that end with `'\n'`;
* `KeepsBounds`      all keys but Enter, and all calls but `ckTerminalGetLine`, do so;
* `Room`             there is room for the line and its `'\n'`, and the `'\n'` that a reader finds is one of the pending bytes;
* `buffers_hold_iff` **whole runs**: every step is as it is to be if and only if each has `Room`;
* `enters_overflow`  the 1025th line without a reader.
-/

set_option linter.unusedVariables false

namespace Clubcos
open Word

/-! ## the calls -/

/-- the terminal, and the readers between `ckBiSemEnter(&s_LineEvent)` and their critical section -/
structure Console where
  term : Terminal
  inside : Nat

inductive InputOp where
  | key (cascii : Byte)
  /-- `ckTerminalGetLine` or `ckTerminalGetChar` is called -/
  | call
  /-- one of the calls passes `s_LineEvent` -/
  | enter
  /-- the critical section of one that has passed it -/
  | getLine (size : Nat)
  | getChar
  | clearLineBuffer
  | clearInputBuffer
  | clearHitKeyBuffer
  | clearAllBuffers

/-- `none` if the call does not come back -/
def Console.exec (s : Console) : InputOp → Option Console
  | .key cascii => (ckTerminalOnInput s.term cascii).map fun term => { s with term }
  | .call => some { s with term := ckTerminalSetStatus s.term .stringInputing }
  | .enter => (ckBiSemEnter s.term.lineEvent).map fun flag =>
      { s with term := { s.term with lineEvent := flag }, inside := s.inside + 1 }
  | .getLine size =>
    if s.inside = 0 then none
    else (Clubcos.getLine s.term size).map fun r => { s with term := r.2, inside := s.inside - 1 }
  | .getChar =>
    if s.inside = 0 then none
    else (Clubcos.getChar s.term).map fun r => { s with term := r.2, inside := s.inside - 1 }
  | .clearLineBuffer => some { s with term := ckTerminalClearLineBuffer_unsafe s.term }
  | .clearInputBuffer => some { s with term := ckTerminalClearInputBuffer_unsafe s.term }
  | .clearHitKeyBuffer => some { s with term := ckTerminalClearHitKeyBuffer_unsafe s.term }
  | .clearAllBuffers => some { s with term := ckTerminalClearAllBuffers s.term }

def Console.boot (screen : Nat → Cell) : Console :=
  ⟨ckTerminalSetStatus (ckTerminalInitialize (.zero screen)) .stringInputing, 0⟩

/-- A pointer below its buffer is an offset above the end, as offsets are unsigned. -/
structure InBuffers (s : Terminal) : Prop where
  inputEnds : s.inputArray.ends = inputBufferSize
  input : s.inputArray.now ≤ s.inputArray.ends
  lineEnds : s.lineBufArray.ends = lineBufferSize
  line : s.lineBufArray.now ≤ s.lineBufArray.ends

structure Bounded (s : Console) (op : InputOp) (s' : Console) : Prop where
  pointers : InBuffers s'.term
  outside : ∀ i, inputBufferSize ≤ i → s'.term.inputArray.mem i = s.term.inputArray.mem i
  accepted : op = .key 0x0a → s.term.inputArray.now < s'.term.inputArray.now ∧
    s'.term.inputArray.mem (s'.term.inputArray.now - 1) = 0x0a

def Room (s : Console) (op : InputOp) (s' : Console) : Prop :=
  match op with
  | .key cascii => cascii = 0x0a → s.term.inputArray.now + s.term.lineBufArray.now < inputBufferSize
  | .getLine size => ∀ ends, strchr s.term.inputArray.mem 0x0a inputBufferSize 0 = some ends →
      min ends (sub32 size 1) < s.term.inputArray.now
  | _ => True

/-! ## what keeps the bounds -/

/-- the pointers stay in their buffers, and nothing is written behind `s_InputBuffer` -/
def KeepsBounds (s s' : Terminal) : Prop :=
  InBuffers s → InBuffers s' ∧ ∀ i, inputBufferSize ≤ i → s'.inputArray.mem i = s.inputArray.mem i

theorem KeepsBounds.trans {s s₁ s₂ : Terminal} (h1 : KeepsBounds s s₁) (h2 : KeepsBounds s₁ s₂) : KeepsBounds s s₂ := by
  intro hs
  obtain ⟨hs₁, hmem₁⟩ := h1 hs
  obtain ⟨hs₂, hmem₂⟩ := h2 hs₁
  exact ⟨hs₂, fun i hi => (hmem₂ i hi).trans (hmem₁ i hi)⟩

/-- the input is not touched, and the line stays in its buffer -/
theorem KeepsBounds.line {s s' : Terminal} (hinput : s'.inputArray = s.inputArray)
    (hends : s'.lineBufArray.ends = s.lineBufArray.ends)
    (hnow : s.lineBufArray.now ≤ s.lineBufArray.ends → s'.lineBufArray.now ≤ s.lineBufArray.ends) : KeepsBounds s s' := by
  intro hs
  refine ⟨⟨?_, ?_, hends.trans hs.lineEnds, ?_⟩, fun i _ => by rw [hinput]⟩
  · rw [hinput]
    exact hs.inputEnds
  · rw [hinput]
    exact hs.input
  · rw [hends]
    exact hnow hs.line

theorem SameInput.keeps {s s' : Terminal} (h : SameInput s s') : KeepsBounds s s' :=
  .line h.input (congrArg Array8.ends h.line) fun hle => h.line ▸ hle

theorem backspace_sameInput {s s' : Terminal} (h : ckTerminalBackspace_unsafe s = some s') : SameInput s s' := by
  unfold ckTerminalBackspace_unsafe at h
  by_cases hc : s.cursorColumn ≠ 0
  · rw [if_pos hc] at h
    exact Option.some.inj h ▸ (SameInput.screen s _ _ _ _ _ _).trans (delete_sameInput _)
  · rw [if_neg hc] at h
    by_cases hr : s.cursorRow ≠ 0
    · rw [if_pos hr] at h
      obtain ⟨_, h⟩ := Option.ite_none_left_eq_some.mp h
      exact Option.some.inj h ▸ .screen s _ _ _ _ _ _
    · rw [if_neg hr] at h
      exact Option.some.inj h ▸ .screen s _ _ _ _ _ _

/-! ## the arrays -/

theorem insert_bounds {ar ar' : Array8} {ptr : Nat} {data : Byte} (h : ckArray8Insert ar ptr data = some (true, ar'))
    (hle : ar.now ≤ ar.ends) : ar'.ends = ar.ends ∧ ar'.now ≤ ar.ends := by
  unfold ckArray8Insert at h
  split at h
  · split at h
    · cases h
    · cases h
      exact ⟨rfl, Nat.succ_le_of_lt (Nat.lt_of_le_of_ne hle ‹_›)⟩
  · cases h

theorem erase_bounds {ar ar' : Array8} {ptr : Nat} (h : ckArray8Erase ar ptr = some ar') :
    ar'.ends = ar.ends ∧ ar'.now < ar.now ∧ ∀ i, ar.now ≤ i → ar'.mem i = ar.mem i := by
  unfold ckArray8Erase at h
  obtain ⟨hptr, h⟩ := Option.ite_none_right_eq_some.mp h
  cases h
  refine ⟨rfl, Nat.sub_lt (Nat.zero_lt_of_lt hptr) Nat.one_pos, fun i hi => ?_⟩
  exact if_neg fun hin => by omega

theorem erase_keeps {s : Terminal} {ar : Array8} {ptr : Nat} (h : ckArray8Erase s.lineBufArray ptr = some ar) (p : Nat) :
    KeepsBounds s { s with lineBufArray := ar, lineBufPtr := p } := by
  obtain ⟨hends, hlt, _⟩ := erase_bounds h
  exact .line rfl hends fun hle => hlt.le.trans hle

/-! ## a key -/

theorem insertChar_keeps {s s' : Terminal} {c : Byte} (hb : c ≠ 0x08) (h : insertChar s c = some s') : KeepsBounds s s' := by
  unfold insertChar at h
  split at h
  · cases h
  · cases h
    exact (SameInput.refl s).keeps
  · rename_i ar har
    have hins : KeepsBounds s { s with lineBufArray := ar, lineBufPtr := s.lineBufPtr + 1 } :=
      fun hs => KeepsBounds.line rfl (insert_bounds har hs.line).1 (fun hle => (insert_bounds har hle).2) hs
    split at h
    · cases h
    · rename_i s₁ h₁
      have hput := putChar_sameInput hb h₁
      cases h
      exact hins.trans hput.keeps
    · rename_i s₁ h₁
      obtain ⟨ar', h', rfl⟩ := Option.map_eq_some_iff.mp h
      exact (hins.trans (putChar_sameInput hb h₁).keeps).trans (erase_keeps h' _)

theorem backspaceChar_keeps {s s' : Terminal} (h : backspaceChar s = some s') : KeepsBounds s s' := by
  unfold backspaceChar at h
  split at h
  · split at h
    · cases h
    · exact (erase_keeps ‹_› _).trans (backspace_sameInput h).keeps
  · cases h
    exact (SameInput.refl s).keeps

theorem deleteChar_keeps {s s' : Terminal} (h : deleteChar s = some s') : KeepsBounds s s' := by
  unfold deleteChar at h
  split at h
  · obtain ⟨ar, har, rfl⟩ := Option.map_eq_some_iff.mp h
    exact (erase_keeps har _).trans (delete_sameInput _).keeps
  · cases h
    exact (SameInput.refl s).keeps

theorem KeepsBounds.moved (s : Terminal) (ptr row column vga : Nat) :
    KeepsBounds s { s with lineBufPtr := ptr, cursorRow := row, cursorColumn := column, vgaCursor := vga } := .line rfl rfl id

theorem moveLeft_keeps (s : Terminal) : KeepsBounds s (moveLeft s) := by
  unfold moveLeft
  split
  · simp only []
    split <;> exact .moved s _ _ _ _
  · exact .moved s _ _ _ _

theorem moveRight_keeps (s : Terminal) : KeepsBounds s (moveRight s) := by
  unfold moveRight
  split <;> exact .moved s _ _ _ _

theorem clearLineBuffer_keeps (s : Terminal) : KeepsBounds s ( ckTerminalClearLineBuffer_unsafe s) :=
  fun hs => ⟨⟨hs.inputEnds, hs.input, rfl, Nat.zero_le _⟩, fun _ _ => rfl⟩

theorem csCancelInputing_keeps (s : Terminal) : KeepsBounds s (csCancelInputing s) := by
  unfold csCancelInputing ckTerminalUpdateCursor_unsafe ckTerminalClearLineBuffer_unsafe
  exact fun hs => ⟨⟨hs.inputEnds, hs.input, rfl, Nat.zero_le _⟩, fun _ _ => rfl⟩

theorem editLine_keeps {s s' : Terminal} {cascii : Byte} (hnl : cascii ≠ 0x0a) (h : editLine s cascii = some s') :
    KeepsBounds s s' := by
  unfold editLine at h
  split at h
  · split at h
    · exact Option.some.inj h ▸ csCancelInputing_keeps s
    · split at h
      · exact backspaceChar_keeps h
      · split at h
        · exact insertChar_keeps ‹_› h
        · exact Option.some.inj h ▸ (SameInput.refl s).keeps
  · split at h
    · exact deleteChar_keeps h
    · split at h
      · exact Option.some.inj h ▸ moveLeft_keeps s
      · split at h
        · exact Option.some.inj h ▸ moveRight_keeps s
        · exact Option.some.inj h ▸ (SameInput.refl s).keeps

/-- all keys but Enter -/
theorem onInput_keeps {s s' : Terminal} {cascii : Byte} (hstat : s.termStat = .stringInputing) (hnl : cascii ≠ 0x0a)
    (h : ckTerminalOnInput s cascii = some s') : KeepsBounds s s' := by
  rw [ckTerminalOnInput_editLine hstat] at h
  obtain ⟨s₁, h₁, rfl⟩ := Option.map_eq_some_iff.mp h
  have hput : KeepsBounds s { s with
      hitKeyQueue := (ckCircularQueue8Put s.hitKeyQueue cascii).2
      hitEvent := ckBiSemPost s.hitEvent
      termStat := .waiting } := .line rfl rfl id
  exact (hput.trans (editLine_keeps hnl h₁)).trans (.line rfl rfl id)

/-- an Enter appends what fits of the line, and stores the `'\n'` behind it -/
theorem onInput_enter {s : Terminal} (hstat : s.termStat = .stringInputing) (hs : InBuffers s) :
    ∃ s', ckTerminalOnInput s 0x0a = some s' ∧ s'.termStat = .stringInputing ∧ s'.lineBufArray.now = 0 ∧
      s'.lineBufArray.ends = lineBufferSize ∧
      let len := min s.lineBufArray.now (inputBufferSize - s.inputArray.now)
      s'.inputArray = { s.inputArray with
        mem := Function.update (memcpy s.inputArray.mem s.inputArray.now s.lineBufArray.mem 0 len)
          (s.inputArray.now + len) 0x0a
        now := s.inputArray.now + len + 1 } := by
  have hends := hs.inputEnds
  have hlt : s.inputArray.ends < 2^32 := by
    rw [hends]
    decide
  let s₀ : Terminal := { s with
    hitKeyQueue := (ckCircularQueue8Put s.hitKeyQueue 0x0a).2
    hitEvent := ckBiSemPost s.hitEvent
    termStat := .waiting }
  have hsame := csNewLine_sameInput s₀
  have hedit : editLine s₀ 0x0a = some (enterLine s₀) := rfl
  refine ⟨{ enterLine s₀ with termStat := .stringInputing }, ?_, rfl, ?_, ?_, ?_⟩
  · rw [ckTerminalOnInput_editLine hstat, hedit]
    rfl
  · rw [enterLine_eq]
    rfl
  · rw [enterLine_eq]
    rfl
  · simp only [enterLine_eq, ckTerminalClearLineBuffer_unsafe, hsame.line, hsame.input]
    rw [ckArray8Append_eq hs.input hlt, hends]

/-! ## a reader -/

theorem getLine_takes {s s' : Terminal} {size : Nat} {buf : List Byte} (h : getLine s size = some (buf, s')) :
    ∃ ends, strchr s.inputArray.mem 0x0a inputBufferSize 0 = some ends ∧ s'.termStat = s.termStat ∧
      s'.lineBufArray = s.lineBufArray ∧ s'.inputArray =
        ⟨memmove s.inputArray.mem 0 (min ends (sub32 size 1)) (sub32 s.inputArray.now (min ends (sub32 size 1))),
          sub32 s.inputArray.now (min ends (sub32 size 1) + 1), s.inputArray.ends⟩ := by
  unfold getLine at h
  split at h
  · cases h
  · rename_i ends hfind
    obtain ⟨_, rfl⟩ := Prod.mk.inj (Option.some.inj h)
    refine ⟨ends, hfind, ?_⟩
    split <;> exact ⟨rfl, rfl, rfl⟩

/-- the pointer stays in the buffer if and only if the `'\n'` that is found is one of the pending bytes -/
theorem getLine_bounded_iff {s s' : Terminal} {size : Nat} {buf : List Byte} (hs : InBuffers s)
    (h : getLine s size = some (buf, s')) :
    InBuffers s' ∧ (∀ i, inputBufferSize ≤ i → s'.inputArray.mem i = s.inputArray.mem i) ↔
      ∀ ends, strchr s.inputArray.mem 0x0a inputBufferSize 0 = some ends → min ends (sub32 size 1) < s.inputArray.now := by
  obtain ⟨ends, hfind, _, hline, hinput⟩ := getLine_takes h
  have hends : ends < inputBufferSize := Nat.zero_add inputBufferSize ▸ strchr_lt hfind
  have hnow : s.inputArray.now ≤ inputBufferSize := hs.inputEnds ▸ hs.input
  have hlen : min ends (sub32 size 1) < inputBufferSize := (min_le_left _ _).trans_lt hends
  simp only [hfind, Option.some.injEq, forall_eq']
  generalize min ends (sub32 size 1) = len at hinput hlen
  unfold inputBufferSize at hlen hnow
  constructor
  · intro ⟨hs', _⟩
    -- else the offset wraps
    by_contra hle
    have hwrap := hs'.input
    rw [hs'.inputEnds, hinput] at hwrap
    simp only [sub32, inputBufferSize] at hwrap
    omega
  · intro hlt
    have hcount : sub32 s.inputArray.now len = s.inputArray.now - len := sub32_of_le hlt.le (by omega)
    have hrest : sub32 s.inputArray.now (len + 1) = s.inputArray.now - (len + 1) := sub32_of_le hlt (by omega)
    rw [hcount, hrest] at hinput
    refine ⟨⟨?_, ?_, ?_, ?_⟩, fun i hi => ?_⟩
    · rw [hinput]
      exact hs.inputEnds
    · rw [hinput]
      exact (Nat.sub_le _ _).trans hs.input
    · rw [hline]
      exact hs.lineEnds
    · rw [hline]
      exact hs.line
    · rw [hinput]
      exact if_neg fun hin => by unfold inputBufferSize at hi; omega

theorem getChar_keeps {s s' : Terminal} {c : Byte} (h : getChar s = some (c, s')) :
    KeepsBounds s s' ∧ s'.termStat = s.termStat := by
  obtain ⟨⟨ret, ar⟩, hpop, h⟩ := Option.map_eq_some_iff.mp h
  obtain ⟨ar', har, e⟩ := Option.map_eq_some_iff.mp hpop
  cases e
  obtain ⟨hends, hlt, hmem⟩ := erase_bounds har
  have hkeeps : KeepsBounds s { s with inputArray := ar } := fun hs =>
    ⟨⟨hends.trans hs.inputEnds, hends ▸ hlt.le.trans hs.input, hs.lineEnds, hs.line⟩,
      fun i hi => hmem i ((hs.inputEnds ▸ hs.input).trans hi)⟩
  obtain ⟨_, rfl⟩ := Prod.mk.inj h
  split <;> exact ⟨hkeeps.trans (.line rfl rfl id), rfl⟩

/-! ## a step -/

theorem exec_stat {s s' : Console} {op : InputOp} (hstat : s.term.termStat = .stringInputing)
    (h : s.exec op = some s') : s'.term.termStat = .stringInputing := by
  cases op with
  | key cascii =>
    obtain ⟨term, hterm, rfl⟩ := Option.map_eq_some_iff.mp h
    rw [ckTerminalOnInput_editLine hstat] at hterm
    obtain ⟨_, _, rfl⟩ := Option.map_eq_some_iff.mp hterm
    rfl
  | call =>
    cases h
    rfl
  | enter =>
    obtain ⟨flag, _, rfl⟩ := Option.map_eq_some_iff.mp h
    exact hstat
  | getLine size =>
    obtain ⟨_, h⟩ := Option.ite_none_left_eq_some.mp h
    obtain ⟨⟨buf, term⟩, hterm, rfl⟩ := Option.map_eq_some_iff.mp h
    obtain ⟨_, _, hsame, _⟩ := getLine_takes hterm
    exact hsame.trans hstat
  | getChar =>
    obtain ⟨_, h⟩ := Option.ite_none_left_eq_some.mp h
    obtain ⟨⟨c, term⟩, hterm, rfl⟩ := Option.map_eq_some_iff.mp h
    exact (getChar_keeps hterm).2.trans hstat
  | clearLineBuffer | clearInputBuffer | clearHitKeyBuffer | clearAllBuffers =>
    cases h
    exact hstat

/-- a line with its `'\n'` is accepted within the buffer if and only if there is room for both -/
theorem enter_bounded_iff {s s' : Console} (hstat : s.term.termStat = .stringInputing) (hs : InBuffers s.term)
    (h : s.exec (.key 0x0a) = some s') :
    Bounded s (.key 0x0a) s' ↔ s.term.inputArray.now + s.term.lineBufArray.now < inputBufferSize := by
  obtain ⟨term, hterm, _, hnow, hends, hinput⟩ := onInput_enter hstat hs
  obtain ⟨term', hterm', rfl⟩ := Option.map_eq_some_iff.mp h
  obtain rfl : term = term' := Option.some.inj (hterm.symm.trans hterm')
  have hle : s.term.inputArray.now ≤ inputBufferSize := hs.inputEnds ▸ hs.input
  constructor
  · intro hb
    have hin := hb.pointers.input
    rw [hb.pointers.inputEnds, hinput] at hin
    simp only [] at hin
    omega
  · intro hroom
    rw [Nat.min_eq_left (by omega)] at hinput
    refine ⟨⟨?_, ?_, hends, ?_⟩, fun i hi => ?_, fun _ => ⟨?_, ?_⟩⟩
    · rw [hinput]
      exact hs.inputEnds
    · rw [hinput]
      exact hs.inputEnds ▸ hroom
    · rw [hnow]
      exact Nat.zero_le _
    · rw [hinput]
      simp only []
      rw [Function.update_of_ne (by omega)]
      exact if_neg fun hin => by omega
    · rw [hinput]
      simp only []
      omega
    · rw [hinput]
      exact Function.update_self _ _ _

theorem KeepsBounds.bounded_iff {s s' : Console} {op : InputOp} (hs : InBuffers s.term) (h : KeepsBounds s.term s'.term)
    (hop : op ≠ .key 0x0a) (hroom : Room s op s') : Bounded s op s' ↔ Room s op s' :=
  iff_of_true ⟨(h hs).1, (h hs).2, fun e => absurd e hop⟩ hroom

/-- what a run keeps -/
structure Inputing (s : Console) : Prop where
  stat : s.term.termStat = .stringInputing
  buffers : InBuffers s.term

theorem exec_bounded_iff {s s' : Console} {op : InputOp} (h : s.exec op = some s') (hs : Inputing s) :
    Bounded s op s' ↔ Room s op s' := by
  obtain ⟨hstat, hs⟩ := hs
  cases op with
  | key cascii =>
    by_cases hnl : cascii = 0x0a
    · subst hnl
      exact (enter_bounded_iff hstat hs h).trans ⟨fun hroom _ => hroom, fun hroom => hroom rfl⟩
    · obtain ⟨term, hterm, rfl⟩ := Option.map_eq_some_iff.mp h
      exact (onInput_keeps hstat hnl hterm).bounded_iff hs (fun e => hnl (InputOp.key.inj e)) fun e => absurd e hnl
  | getLine size =>
    obtain ⟨_, h⟩ := Option.ite_none_left_eq_some.mp h
    obtain ⟨⟨buf, term⟩, hterm, rfl⟩ := Option.map_eq_some_iff.mp h
    refine Iff.trans ?_ (getLine_bounded_iff hs hterm)
    exact ⟨fun hb => ⟨hb.pointers, hb.outside⟩, fun ⟨hp, ho⟩ => ⟨hp, ho, nofun⟩⟩
  | getChar =>
    obtain ⟨_, h⟩ := Option.ite_none_left_eq_some.mp h
    obtain ⟨⟨c, term⟩, hterm, rfl⟩ := Option.map_eq_some_iff.mp h
    exact (getChar_keeps hterm).1.bounded_iff hs nofun trivial
  | enter =>
    obtain ⟨flag, _, rfl⟩ := Option.map_eq_some_iff.mp h
    exact KeepsBounds.bounded_iff hs (.line rfl rfl id) nofun trivial
  | clearLineBuffer =>
    cases h
    exact (clearLineBuffer_keeps s.term).bounded_iff hs nofun trivial
  | clearInputBuffer =>
    cases h
    have hkeeps : KeepsBounds s.term ( ckTerminalClearInputBuffer_unsafe s.term) :=
      fun hs => ⟨⟨rfl, Nat.zero_le _, hs.lineEnds, hs.line⟩, fun _ _ => rfl⟩
    exact hkeeps.bounded_iff hs nofun trivial
  | clearAllBuffers =>
    cases h
    have hkeeps : KeepsBounds s.term (ckTerminalClearAllBuffers s.term) :=
      fun _ => ⟨⟨rfl, Nat.zero_le _, rfl, Nat.zero_le _⟩, fun _ _ => rfl⟩
    exact hkeeps.bounded_iff hs nofun trivial
  | call | clearHitKeyBuffer =>
    cases h
    exact KeepsBounds.bounded_iff hs (.line rfl rfl id) nofun trivial

/-! ## runs -/

theorem along_bounded_iff {s : Console} (hs : Inputing s) (ops : List InputOp) :
    Machine.Along Console.exec Bounded s ops ↔ Machine.Along Console.exec Room s ops := by
  apply Machine.along_iff_keeping _ _ hs
  · exact fun s op s' => exec_bounded_iff
  · exact fun s op s' h hb hs => ⟨exec_stat hs.stat h, hb.pointers⟩

theorem boot_inputing (screen : Nat → Cell) : Inputing (.boot screen) := ⟨rfl, rfl, Nat.zero_le _, rfl, Nat.zero_le _⟩

/-- **The buffers hold what is typed**, in every step of a run of keys and calls, if and only if each Enter finds room for
its line and the `'\n'`, and each `ckTerminalGetLine` finds the `'\n'` among the pending bytes. -/
theorem buffers_hold_iff (screen : Nat → Cell) (ops : List InputOp) :
    Machine.Along Console.exec Bounded (.boot screen) ops ↔ Machine.Along Console.exec Room (.boot screen) ops :=
  along_bounded_iff (boot_inputing screen) ops

/-- without a reader, every empty line takes one byte -/
theorem enters_full : ∀ {n : Nat} {s : Console}, Inputing s → s.term.lineBufArray.now = 0 →
    inputBufferSize ≤ s.term.inputArray.now + n →
    ¬ Machine.Along Console.exec Room s (List.replicate (n + 1) (.key 0x0a)) := by
  intro n
  induction n with
  | zero =>
    intro s hs hline hfull h
    obtain ⟨term, hterm, _⟩ := onInput_enter hs.stat hs.buffers
    have hroom := (h { s with term } (congrArg (Option.map _) hterm)).1 rfl
    omega
  | succ n ih =>
    intro s hs hline hfull h
    obtain ⟨term, hterm, hstat, hnow, hends, hinput⟩ := onInput_enter hs.stat hs.buffers
    have hexec : s.exec (.key 0x0a) = some { s with term } := congrArg (Option.map _) hterm
    obtain ⟨hroom, h⟩ := h _ hexec
    have hbounded := (exec_bounded_iff hexec hs).mpr hroom
    refine ih ⟨hstat, hbounded.pointers⟩ hnow ?_ h
    show inputBufferSize ≤ term.inputArray.now + n
    rw [hinput, hline, Nat.zero_min]
    show _ ≤ s.term.inputArray.now + 0 + 1 + n
    omega

/-- Enter 1025 times: the last `'\n'` is stored behind `s_InputBuffer`. -/
theorem enters_overflow :
    ¬ Machine.Along Console.exec Bounded (.boot fun _ => 0) (List.replicate 1025 (.key 0x0a)) := by
  rw [along_bounded_iff (boot_inputing _)]
  exact enters_full (boot_inputing _) rfl (Nat.le_refl _)

end Clubcos
