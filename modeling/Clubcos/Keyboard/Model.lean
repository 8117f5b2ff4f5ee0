import Clubcos.Keyboard.Table
import Clubcos.Terminal.Model

/-!
# keys.c: from scan codes to keys

`csAssembleScanCodeToKeyCode` is a state machine over its static variables, `Decoder`.  An access outside of
`g_KeyTable` is `none`.

* `ckOnKeyboardInterrupt`   one byte, with the calls of `ckKeyboardUpdateLED` and `ckTerminalOnInput` that it makes;
* `feed`                    a stream of bytes.
-/

set_option linter.unusedVariables false

namespace Clubcos
open Word

abbrev KeyCode : Type := BitVec 16

/-! ## the key codes -/

structure Decoder where
  bExternCode : Bool
  bPause : Bool
  skipForPause : Nat

def Decoder.idle : Decoder := ⟨false, false, 0⟩

def csGetKeyCodeFromScanCode (scanCode : Byte) (bExtern bPause : Bool) : KeyCode :=
  let bPushKey := scanCode &&& 0x80 == 0
  let scanCode := if bPushKey then scanCode else scanCode &&& 0x7f
  let ret :=
    if bPause then keycodePause
    else if bExtern then scanCode.setWidth 16 - 0x1c + 0x59
    else scanCode.setWidth 16
  if bPushKey then ret else ret ||| keycodeFlagUnpush

/-- `none` as long as the key code is not complete -/
def csAssembleScanCodeToKeyCode (d : Decoder) (scanCode : Byte) : Option KeyCode × Decoder :=
  if d.bPause then
    let d := { d with skipForPause := sub32 d.skipForPause 1 }
    if d.skipForPause ≠ 0 then (none, d) else (some keycodePause, { d with bPause := false })
  else if d.bExternCode then (some (csGetKeyCodeFromScanCode scanCode true false), { d with bExternCode := false })
  else if scanCode = 0xe1 then (none, { d with bPause := true, skipForPause := 2 })
  else if scanCode = 0xe0 then (none, { d with bExternCode := true })
  else (some (csGetKeyCodeFromScanCode scanCode false false), d)

def ckKeyIsDown (keyCode : KeyCode) : Bool := keyCode &&& keycodeFlagUnpush == 0

/-- the index into `g_KeyTable` -/
def keyIndex (keyCode : KeyCode) : Nat := (keyCode &&& 0xff).toNat

/-! ## the keys -/

def isalpha (c : Byte) : Bool :=
  decide (0x41 ≤ c.toNat ∧ c.toNat ≤ 0x5a) || decide (0x61 ≤ c.toNat ∧ c.toNat ≤ 0x7a)

structure KeyboardStruct where
  bNumLock : Bool
  bCapsLock : Bool
  bScrollLock : Bool
  bShift : Bool

/-- `g_Keyboard` at the start -/
def g_Keyboard : KeyboardStruct := ⟨true, false, false, false⟩

def ckGetCasciiFromKeyCode (g : KeyboardStruct) (keyCode : KeyCode) : Option Byte :=
  (g_KeyTable[keyIndex keyCode]?).map fun key =>
    if keycodeNumMin ≤ keyIndex keyCode ∧ keyIndex keyCode ≤ keycodeNumMax then
      if g.bNumLock then key.combinedKey else key.normalKey
    else if isalpha key.normalKey then
      if g.bCapsLock then if g.bShift then key.normalKey else key.combinedKey
      else if g.bShift then key.combinedKey
      else key.normalKey
    else if g.bShift then key.combinedKey
    else key.normalKey

structure Keys where
  decoder : Decoder
  /-- the field of the entries of `g_KeyTable` -/
  bPushedKey : Nat → Bool
  keyboard : KeyboardStruct

inductive KeyEffect where
  /-- a call of `ckKeyboardUpdateLED` -/
  | updateLED
  /-- a call of `ckTerminalOnInput` -/
  | onInput (cascii : Byte)
deriving DecidableEq

/-- the `switch` of `ckOnKeyboardInterrupt`; the locks change when their key is released -/
def modifierKey (s : Keys) (cascii : Byte) (down : Bool) : KeyboardStruct × List KeyEffect :=
  let g := s.keyboard
  if ckKeyIsAscii cascii then (g, [])
  else if cascii = Cascii.lshift ∨ cascii = Cascii.rshift then
    ({ g with bShift := s.bPushedKey scanCodeLShift || s.bPushedKey scanCodeRShift }, [])
  else if cascii = Cascii.numLock then
    if ¬ down then ({ g with bNumLock := !g.bNumLock }, [.updateLED]) else (g, [])
  else if cascii = Cascii.capsLock then
    if ¬ down then ({ g with bCapsLock := !g.bCapsLock }, [.updateLED]) else (g, [])
  else if cascii = Cascii.scrollLock then
    if ¬ down then ({ g with bScrollLock := !g.bScrollLock }, [.updateLED]) else (g, [])
  else (g, [])

/-- `ckOnKeyboardInterrupt` with a key code assembled -/
def onKeyCode (s : Keys) (keyCode : KeyCode) : Option (Keys × List KeyEffect) :=
  (ckGetCasciiFromKeyCode s.keyboard keyCode).map fun cascii =>
    let down := ckKeyIsDown keyCode
    let s := { s with bPushedKey := Function.update s.bPushedKey (keyIndex keyCode) down }
    let (keyboard, effects) := modifierKey s cascii down
    ({ s with keyboard := keyboard }, effects ++ if cascii ≠ 0 ∧ down then [.onInput cascii] else [])

/-- only the low byte of the data is a scan code -/
def ckOnKeyboardInterrupt (s : Keys) (queueData : BitVec 32) : Option (Keys × List KeyEffect) :=
  match csAssembleScanCodeToKeyCode s.decoder (queueData.setWidth 8) with
  | (none, d) => some ({ s with decoder := d }, [])
  | (some keyCode, d) => onKeyCode { s with decoder := d } keyCode

/-- one byte after the other, with all calls -/
def feed : Keys → List Byte → Option (Keys × List KeyEffect)
  | s, [] => some (s, [])
  | s, b :: bs =>
    (ckOnKeyboardInterrupt s (b.setWidth 32)).bind fun r => (feed r.1 bs).map fun r' => (r'.1, r.2 ++ r'.2)

/-- no key pressed, and nothing read -/
def Keys.start (g : KeyboardStruct) : Keys := ⟨.idle, fun _ => false, g⟩

end Clubcos
