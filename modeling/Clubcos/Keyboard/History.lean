import Mathlib.Logic.Function.Iterate
import Clubcos.Keyboard.Stream

/-!
# Keys pressed and released

A keyboard that sends whole sequences is a history of events.  The state of `g_Keyboard` and the keys passed to
the terminal are functions of the history.

* `ScanEvent`              one sequence of scan codes;
* `keyboardAfter`          the locks and Shift after a history;
* `typedAfter`             the keys that a history types;
* `keys_follow_history`    **the decoder reads one sequence for each event, and `g_Keyboard` and the keys passed on
                           are those of the history.**
-/

set_option linter.unusedVariables false

namespace Clubcos
open Word

inductive ScanEvent where
  | key (s : Byte) (release : Bool)
  /-- behind 0xE0 -/
  | extended (s : Byte) (release : Bool)
  /-- 0xE1 and any two bytes -/
  | pause (b c : Byte)

def ScanEvent.Valid : ScanEvent → Prop
  | .key s _ => 1 ≤ s.toNat ∧ s.toNat ≤ 0x58
  | .extended s _ => 0x1c ≤ s.toNat ∧ s.toNat ≤ 0x53
  | .pause _ _ => True

instance (e : ScanEvent) : Decidable e.Valid := by
  unfold ScanEvent.Valid
  split <;> infer_instance

def breakCode (s : Byte) (release : Bool) : Byte := if release then s ||| 0x80 else s

def ScanEvent.bytes : ScanEvent → List Byte
  | .key s release => [breakCode s release]
  | .extended s release => [0xe0, breakCode s release]
  | .pause b c => [0xe1, b, c]

/-- the index of the key in `g_KeyTable` -/
def ScanEvent.code : ScanEvent → Nat
  | .key s _ => s.toNat
  | .extended s _ => s.toNat + 0x3d
  | .pause _ _ => 0x91

/-- Pause is never released. -/
def ScanEvent.press : ScanEvent → Bool
  | .key _ release => !release
  | .extended _ release => !release
  | .pause _ _ => true

/-! ## what a history means -/

def scanCodeNumLock : Nat := 0x45
def scanCodeCapsLock : Nat := 0x3a
def scanCodeScrollLock : Nat := 0x46

/-- the latest event of the key was a press -/
def held (code : Nat) (es : List ScanEvent) : Bool :=
  match (es.filter fun e => e.code = code).getLast? with
  | some e => e.press
  | none => false

def releases (code : Nat) (es : List ScanEvent) : Nat := es.countP fun e => e.code = code ∧ e.press = false

def keyboardAfter (g : KeyboardStruct) (es : List ScanEvent) : KeyboardStruct where
  bNumLock := not^[releases scanCodeNumLock es] g.bNumLock
  bCapsLock := not^[releases scanCodeCapsLock es] g.bCapsLock
  bScrollLock := not^[releases scanCodeScrollLock es] g.bScrollLock
  bShift := held scanCodeLShift es || held scanCodeRShift es

def keyAt (code : Nat) : KeyStruct := (g_KeyTable[code]?).getD ⟨0, 0⟩

/-- whether a key yields its combined code: a letter, a key of the keypad, any other one -/
def combines (g : KeyboardStruct) (code : Nat) : Bool :=
  if isalpha (keyAt code).normalKey then xor g.bShift g.bCapsLock
  else if keycodeNumMin ≤ code ∧ code ≤ keycodeNumMax then g.bNumLock
  else g.bShift

def keyCascii (g : KeyboardStruct) (code : Nat) : Byte :=
  if combines g code then (keyAt code).combinedKey else (keyAt code).normalKey

/-- the key that an event types when `g` is the state before it -/
def typedBy (g : KeyboardStruct) (e : ScanEvent) : List Byte :=
  if e.press ∧ keyCascii g e.code ≠ 0 then [keyCascii g e.code] else []

/-- the keys that the events `es` type after the events `before` -/
def typedAfter (g : KeyboardStruct) : List ScanEvent → List ScanEvent → List Byte
  | _, [] => []
  | before, e :: es => typedBy (keyboardAfter g before) e ++ typedAfter g (before ++ [e]) es

/-- the arguments of the calls of `ckTerminalOnInput` -/
def inputs (effects : List KeyEffect) : List Byte :=
  effects.filterMap fun effect => match effect with
    | .onInput cascii => some cascii
    | .updateLED => none

/-! ## one more event -/

theorem held_snoc (code : Nat) (es : List ScanEvent) (e : ScanEvent) :
    held code (es ++ [e]) = if e.code = code then e.press else held code es := by
  unfold held
  rw [List.filter_append]
  by_cases h : e.code = code
  · have hpos : [e].filter (fun e => decide (e.code = code)) = [e] := List.filter_cons_of_pos (decide_eq_true h)
    rw [if_pos h, hpos, List.getLast?_concat]
  · have hneg : [e].filter (fun e => decide (e.code = code)) = [] :=
      List.filter_cons_of_neg fun h' => h (of_decide_eq_true h')
    rw [if_neg h, hneg, List.append_nil]

theorem lock_snoc (code : Nat) (es : List ScanEvent) (e : ScanEvent) (b : Bool) :
    not^[releases code (es ++ [e])] b =
      if e.code = code ∧ e.press = false then !(not^[releases code es] b) else not^[releases code es] b := by
  unfold releases
  rw [List.countP_append, List.countP_singleton]
  by_cases h : e.code = code ∧ e.press = false
  · rw [if_pos h, if_pos (decide_eq_true h), Function.iterate_succ_apply']
  · rw [if_neg h, if_neg (fun h' => h (of_decide_eq_true h')), Nat.add_zero]

/-! ## the bytes of an event -/

theorem keyIndex_break (s : Byte) (release : Bool) (h : 1 ≤ s.toNat ∧ s.toNat ≤ 0x58) :
    breakCode s release ≠ 0xe1 ∧ breakCode s release ≠ 0xe0 ∧
      keyIndex (csGetKeyCodeFromScanCode (breakCode s release) false false) = s.toNat ∧
      keyIndex (csGetKeyCodeFromScanCode (breakCode s release) true false) = s.toNat + 0x3d ∧
      ckKeyIsDown (csGetKeyCodeFromScanCode (breakCode s release) false false) = !release ∧
      ckKeyIsDown (csGetKeyCodeFromScanCode (breakCode s release) true false) = !release := by
  revert s release
  decide +kernel

theorem feed_pending {s : Keys} {b : Byte} {d : Decoder} (h : csAssembleScanCodeToKeyCode s.decoder b = (none, d))
    (bs : List Byte) : feed s (b :: bs) = feed { s with decoder := d } bs := by
  rw [feed, ckOnKeyboardInterrupt, setWidth_byte, h]
  show (feed { s with decoder := d } bs).map (fun r => (r.1, [] ++ r.2)) = _
  exact Option.map_id'

theorem feed_last {s : Keys} {b : Byte} {d : Decoder} {keyCode : KeyCode}
    (h : csAssembleScanCodeToKeyCode s.decoder b = (some keyCode, d)) :
    feed s [b] = onKeyCode { s with decoder := d } keyCode := by
  rw [feed, ckOnKeyboardInterrupt, setWidth_byte, h]
  show (onKeyCode { s with decoder := d } keyCode).bind (fun r => some (r.1, r.2 ++ [])) = _
  cases onKeyCode { s with decoder := d } keyCode with
  | none => rfl
  | some r =>
    show some (r.1, r.2 ++ []) = some r
    rw [List.append_nil]

/-- an event is one key code -/
theorem event_assembled {e : ScanEvent} (he : e.Valid) : ∃ ext keyCode, keyIndex keyCode = e.code ∧
    ckKeyIsDown keyCode = e.press ∧
    (∀ bs, assembled .idle (e.bytes ++ bs) = (ext, keyCode) :: assembled .idle bs) ∧
    ∀ s : Keys, s.decoder = .idle → feed s e.bytes = onKeyCode s keyCode := by
  cases e with
  | key b release =>
    obtain ⟨h1, h0, hidx, _, hdown, _⟩ := keyIndex_break b release he
    refine ⟨false, _, hidx, hdown, fun bs => assembled_single bs h1 h0, fun s hs => ?_⟩
    obtain ⟨d, pushed, g⟩ := s
    obtain rfl : d = .idle := hs
    exact feed_last (csAssemble_single h1 h0)
  | extended b release =>
    have hb : 1 ≤ b.toNat ∧ b.toNat ≤ 0x58 := ⟨Nat.le_trans (by decide) he.1, Nat.le_trans he.2 (by decide)⟩
    obtain ⟨_, _, _, hidx, _, hdown⟩ := keyIndex_break b release hb
    refine ⟨true, _, hidx, hdown, fun bs => assembled_extended _ bs, fun s hs => ?_⟩
    obtain ⟨d, pushed, g⟩ := s
    obtain rfl : d = .idle := hs
    exact (feed_pending rfl _).trans (feed_last rfl)
  | pause b c =>
    have h1 : csAssembleScanCodeToKeyCode .idle 0xe1 = (none, ⟨false, true, 2⟩) := rfl
    have h2 : csAssembleScanCodeToKeyCode ⟨false, true, 2⟩ b = (none, ⟨false, true, 1⟩) := rfl
    have h3 : csAssembleScanCodeToKeyCode ⟨false, true, 1⟩ c = (some keycodePause, .idle) := rfl
    refine ⟨false, keycodePause, rfl, rfl, fun bs => assembled_pause b c bs, fun s hs => ?_⟩
    obtain ⟨d, pushed, g⟩ := s
    obtain rfl : d = .idle := hs
    exact (feed_pending h1 _).trans ((feed_pending h2 _).trans (feed_last h3))

/-! ## the table -/

theorem getElem_keyAt {code : Nat} (h : code < g_KeyTable.length) : g_KeyTable[code]? = some (keyAt code) := by
  rw [keyAt, List.getElem?_eq_getElem h]
  rfl

/-- no key of the keypad is a letter -/
theorem keypad_no_letter {code : Nat} (h1 : keycodeNumMin ≤ code) (h2 : code ≤ keycodeNumMax) :
    isalpha (keyAt code).normalKey = false := by
  have h : ∀ i < keycodeNumMax + 1, keycodeNumMin ≤ i → isalpha (keyAt i).normalKey = false := by decide +kernel
  exact h code (Nat.lt_succ_of_le h2) h1

theorem ckGetCascii_eq (g : KeyboardStruct) {keyCode : KeyCode} (h : keyIndex keyCode < g_KeyTable.length) :
    ckGetCasciiFromKeyCode g keyCode = some (keyCascii g (keyIndex keyCode)) := by
  unfold ckGetCasciiFromKeyCode keyCascii combines
  rw [getElem_keyAt h, Option.map_some]
  congr 1
  by_cases hnum : keycodeNumMin ≤ keyIndex keyCode ∧ keyIndex keyCode ≤ keycodeNumMax
  · rw [if_pos hnum, if_pos hnum, keypad_no_letter hnum.1 hnum.2, if_neg Bool.false_ne_true]
  · rw [if_neg hnum, if_neg hnum]
    by_cases halpha : isalpha (keyAt (keyIndex keyCode)).normalKey = true
    · rw [if_pos halpha, if_pos halpha]
      cases g.bCapsLock <;> cases g.bShift <;> rfl
    · rw [if_neg halpha, if_neg halpha]

/-- the five keys that change `g_Keyboard` -/
def Marks (cascii : Byte) (code : Nat) : Prop :=
  (cascii = Cascii.lshift ↔ code = scanCodeLShift) ∧ (cascii = Cascii.rshift ↔ code = scanCodeRShift) ∧
    (cascii = Cascii.numLock ↔ code = scanCodeNumLock) ∧ (cascii = Cascii.capsLock ↔ code = scanCodeCapsLock) ∧
    (cascii = Cascii.scrollLock ↔ code = scanCodeScrollLock)

instance (cascii : Byte) (code : Nat) : Decidable (Marks cascii code) := by
  unfold Marks
  infer_instance

theorem keyCascii_marks (g : KeyboardStruct) {code : Nat} (h : code < g_KeyTable.length) :
    Marks (keyCascii g code) code := by
  have hall : ∀ i < 0x92, Marks (keyAt i).normalKey i ∧ Marks (keyAt i).combinedKey i := by decide +kernel
  obtain ⟨h1, h2⟩ := hall code (g_KeyTable_length ▸ h)
  unfold keyCascii
  split
  · exact h2
  · exact h1

theorem modifierKey_eq (s : Keys) {cascii : Byte} {code : Nat} (h : Marks cascii code) (down : Bool) :
    (modifierKey s cascii down).1 = {
      bNumLock := if code = scanCodeNumLock ∧ down = false then !s.keyboard.bNumLock else s.keyboard.bNumLock
      bCapsLock := if code = scanCodeCapsLock ∧ down = false then !s.keyboard.bCapsLock else s.keyboard.bCapsLock
      bScrollLock :=
        if code = scanCodeScrollLock ∧ down = false then !s.keyboard.bScrollLock else s.keyboard.bScrollLock
      bShift :=
        if code = scanCodeLShift ∨ code = scanCodeRShift then s.bPushedKey scanCodeLShift || s.bPushedKey scanCodeRShift
        else s.keyboard.bShift } ∧ inputs (modifierKey s cascii down).2 = [] := by
  obtain ⟨hl, hr, hn, hc, hs⟩ := h
  simp only [← hl, ← hr, ← hn, ← hc, ← hs]
  by_cases h1 : cascii = Cascii.lshift
  · subst h1
    exact ⟨rfl, rfl⟩
  · by_cases h2 : cascii = Cascii.rshift
    · subst h2
      exact ⟨rfl, rfl⟩
    · by_cases h3 : cascii = Cascii.numLock
      · subst h3
        cases down <;> exact ⟨rfl, rfl⟩
      · by_cases h4 : cascii = Cascii.capsLock
        · subst h4
          cases down <;> exact ⟨rfl, rfl⟩
        · by_cases h5 : cascii = Cascii.scrollLock
          · subst h5
            cases down <;> exact ⟨rfl, rfl⟩
          · have hnone : modifierKey s cascii down = (s.keyboard, []) := by
              simp only [modifierKey, if_neg (not_or.mpr ⟨h1, h2⟩), if_neg h3, if_neg h4, if_neg h5, ite_self]
            rw [hnone, if_neg fun h => h3 h.1, if_neg fun h => h4 h.1, if_neg fun h => h5 h.1, if_neg (not_or.mpr ⟨h1, h2⟩)]
            exact ⟨rfl, rfl⟩

/-! ## the invariant -/

/-- **The keys are those of the history.** -/
structure KeyInv (g : KeyboardStruct) (es : List ScanEvent) (s : Keys) : Prop where
  idle : s.decoder = .idle
  left : s.bPushedKey scanCodeLShift = held scanCodeLShift es
  right : s.bPushedKey scanCodeRShift = held scanCodeRShift es
  keyboard : s.keyboard = keyboardAfter g es

theorem ScanEvent.Valid.code_lt {e : ScanEvent} (he : e.Valid) : e.code < g_KeyTable.length := by
  rw [g_KeyTable_length]
  cases e with
  | key s release => exact Nat.lt_of_le_of_lt he.2 (by decide)
  | extended s release => exact Nat.lt_of_le_of_lt (Nat.add_le_add_right he.2 _) (by decide)
  | pause b c => exact (by decide : 0x91 < 0x92)

theorem pushed_snoc {pushed : Nat → Bool} {code : Nat} {es : List ScanEvent} (h : pushed code = held code es)
    (e : ScanEvent) : Function.update pushed e.code e.press code = held code (es ++ [e]) := by
  rw [held_snoc, Function.update_apply, h]
  by_cases hc : e.code = code
  · rw [if_pos hc, if_pos hc.symm]
  · rw [if_neg hc, if_neg (Ne.symm hc)]

/-- one event -/
theorem KeyInv.event {g : KeyboardStruct} {es : List ScanEvent} {s : Keys} (h : KeyInv g es s) {e : ScanEvent}
    (he : e.Valid) : ∃ s' effects, feed s e.bytes = some (s', effects) ∧ KeyInv g (es ++ [e]) s' ∧
      inputs effects = typedBy (keyboardAfter g es) e := by
  obtain ⟨ext, keyCode, hcode, hdown, _, hfeed⟩ := event_assembled he
  have hlt : keyIndex keyCode < g_KeyTable.length := hcode ▸ he.code_lt
  let cascii := keyCascii (keyboardAfter g es) e.code
  let s₁ : Keys := { s with bPushedKey := Function.update s.bPushedKey e.code e.press }
  obtain ⟨hmod, hin⟩ := modifierKey_eq s₁ (keyCascii_marks (keyboardAfter g es) he.code_lt) e.press
  have hleft : s₁.bPushedKey scanCodeLShift = held scanCodeLShift (es ++ [e]) := pushed_snoc h.left e
  have hright : s₁.bPushedKey scanCodeRShift = held scanCodeRShift (es ++ [e]) := pushed_snoc h.right e
  have hexec : onKeyCode s keyCode = some ({ s₁ with keyboard := (modifierKey s₁ cascii e.press).1 },
      (modifierKey s₁ cascii e.press).2 ++ if cascii ≠ 0 ∧ e.press then [.onInput cascii] else []) := by
    have hcascii : ckGetCasciiFromKeyCode s.keyboard keyCode = some cascii := by
      rw [ckGetCascii_eq _ hlt, hcode, h.keyboard]
    unfold onKeyCode
    rw [hcascii, hcode, hdown]
    rfl
  refine ⟨_, _, (hfeed s h.idle).trans hexec, ⟨h.idle, hleft, hright, hmod.trans ?_⟩, ?_⟩
  · have hkeyboard : s₁.keyboard = keyboardAfter g es := h.keyboard
    rw [hkeyboard, hleft, hright]
    unfold keyboardAfter
    rw [lock_snoc, lock_snoc, lock_snoc]
    congr 1
    -- the other keys leave both Shift keys as they were
    by_cases hshift : e.code = scanCodeLShift ∨ e.code = scanCodeRShift
    · rw [if_pos hshift]
    · obtain ⟨hl, hr⟩ := not_or.mp hshift
      rw [if_neg hshift, held_snoc, held_snoc, if_neg hl, if_neg hr]
  · show inputs (_ ++ _) = _
    unfold inputs at hin ⊢
    rw [List.filterMap_append, hin, List.nil_append]
    unfold typedBy
    by_cases hpress : cascii ≠ 0 ∧ e.press = true
    · rw [if_pos hpress, if_pos ⟨hpress.2, hpress.1⟩]
      rfl
    · rw [if_neg hpress, if_neg fun h => hpress ⟨h.2, h.1⟩]
      rfl

theorem feed_append (cs : List Byte) : ∀ {bs : List Byte} {s s' : Keys} {effects : List KeyEffect},
    feed s bs = some (s', effects) → feed s (bs ++ cs) = (feed s' cs).map fun r => (r.1, effects ++ r.2)
  | [], s, s', effects, h => by
    obtain ⟨rfl, rfl⟩ := Prod.mk.inj (Option.some.inj h)
    exact Option.map_id'.symm
  | b :: bs, s, s', effects, h => by
    obtain ⟨⟨s₁, effects₁⟩, h₁, h⟩ := Option.bind_eq_some_iff.mp h
    obtain ⟨⟨s₂, effects₂⟩, h₂, h⟩ := Option.map_eq_some_iff.mp h
    obtain ⟨rfl, rfl⟩ := Prod.mk.inj h
    rw [List.cons_append, feed, h₁, Option.bind_some, feed_append cs h₂, Option.map_map]
    exact congrArg (Option.map · _) (funext fun r => Prod.ext rfl (List.append_assoc _ _ _).symm)

theorem KeyInv.events {g : KeyboardStruct} : ∀ {es before : List ScanEvent} {s : Keys}, KeyInv g before s →
    (∀ e ∈ es, e.Valid) → ∃ s' effects, feed s (es.flatMap ScanEvent.bytes) = some (s', effects) ∧
      KeyInv g (before ++ es) s' ∧ inputs effects = typedAfter g before es
  | [], before, s, h, _ => ⟨s, [], rfl, (List.append_nil before).symm ▸ h, rfl⟩
  | e :: es, before, s, h, hv => by
    obtain ⟨he, hes⟩ := List.forall_mem_cons.mp hv
    obtain ⟨s₁, effects₁, h₁, hinv₁, hin₁⟩ := h.event he
    obtain ⟨s₂, effects₂, h₂, hinv₂, hin₂⟩ := KeyInv.events hinv₁ hes
    refine ⟨s₂, effects₁ ++ effects₂, ?_, ?_, ?_⟩
    · rw [List.flatMap_cons, feed_append _ h₁, h₂]
      rfl
    · rw [List.append_cons]
      exact hinv₂
    · rw [inputs, List.filterMap_append]
      exact congrArg₂ _ hin₁ hin₂

theorem start_keyInv {g : KeyboardStruct} (hg : g.bShift = false) : KeyInv g [] (Keys.start g) := by
  refine ⟨rfl, rfl, rfl, ?_⟩
  obtain ⟨num, caps, scroll, shift⟩ := g
  obtain rfl : shift = false := hg
  rfl

theorem events_assembled : ∀ {es : List ScanEvent}, (∀ e ∈ es, e.Valid) →
    (assembled .idle (es.flatMap ScanEvent.bytes)).map (fun c => (keyIndex c.2, ckKeyIsDown c.2)) =
      es.map fun e => (e.code, e.press)
  | [], _ => rfl
  | e :: es, hv => by
    obtain ⟨he, hes⟩ := List.forall_mem_cons.mp hv
    obtain ⟨ext, keyCode, hcode, hdown, hassembled, _⟩ := event_assembled he
    rw [List.flatMap_cons, hassembled, List.map_cons, List.map_cons, events_assembled hes, hcode, hdown]

/-- **Modifiers and keys follow the history** of whole sequences: one key code for each event, no bytes left
over, the locks flipped by each release of their key, Shift held as long as one of its keys is, and the keys that
the history types passed to the terminal. -/
theorem keys_follow_history {g : KeyboardStruct} (hg : g.bShift = false) {es : List ScanEvent}
    (hv : ∀ e ∈ es, e.Valid) : ∃ s effects,
    feed (Keys.start g) (es.flatMap ScanEvent.bytes) = some (s, effects) ∧ s.decoder = .idle ∧
    (assembled .idle (es.flatMap ScanEvent.bytes)).map (fun c => (keyIndex c.2, ckKeyIsDown c.2)) =
      es.map (fun e => (e.code, e.press)) ∧
    s.keyboard.bShift = (held scanCodeLShift es || held scanCodeRShift es) ∧
    s.keyboard.bNumLock = not^[releases scanCodeNumLock es] g.bNumLock ∧
    s.keyboard.bCapsLock = not^[releases scanCodeCapsLock es] g.bCapsLock ∧
    s.keyboard.bScrollLock = not^[releases scanCodeScrollLock es] g.bScrollLock ∧
    inputs effects = typedAfter g [] es := by
  obtain ⟨s, effects, h, hinv, hin⟩ := (start_keyInv hg).events hv
  have hkeyboard : s.keyboard = keyboardAfter g es := hinv.keyboard
  refine ⟨s, effects, h, hinv.idle, events_assembled hv, ?_, ?_, ?_, ?_, hin⟩
  · rw [hkeyboard]
    rfl
  · rw [hkeyboard]
    rfl
  · rw [hkeyboard]
    rfl
  · rw [hkeyboard]
    rfl

/-- Shift down, `a`, Shift up, Left, Pause -/
def shiftedKey : List ScanEvent :=
  [.key 0x2a false, .key 0x1e false, .key 0x2a true, .extended 0x4b false, .pause 0x1d 0x45]

theorem keys_follow_shiftedKey : ∃ s effects,
    feed (Keys.start g_Keyboard) (shiftedKey.flatMap ScanEvent.bytes) = some (s, effects) ∧
    s.keyboard.bNumLock = true ∧ inputs effects = [0x82, 0x41, 0xa7, 0xae] := by
  have hv : ∀ e ∈ shiftedKey, e.Valid := by decide
  obtain ⟨s, effects, h, _, _, _, hnum, _, _, hin⟩ := keys_follow_history (g := g_Keyboard) rfl hv
  exact ⟨s, effects, h, hnum.trans (by decide +kernel), hin.trans (by decide +kernel)⟩

end Clubcos
