import Clubcos.Keyboard.Model

/-!
# Streams of scan codes

* `assembled`         the key codes assembled from a stream;
* `prefixedBytes`     the bytes of a stream that are read as the ones behind a prefix 0xE0;
* `stream_in_table`   **a stream stays inside the table, and its key codes do not collide, just in case these
                      bytes are, but for the bit of a release, between 0x1C and 0x54.**
-/

set_option linter.unusedVariables false

namespace Clubcos
open Word

/-- each key code with the mark whether it comes from a byte behind 0xE0 -/
def assembled : Decoder → List Byte → List (Bool × KeyCode)
  | _, [] => []
  | d, b :: bs =>
    match csAssembleScanCodeToKeyCode d b with
    | (none, d') => assembled d' bs
    | (some keyCode, d') => (!d.bPause && d.bExternCode, keyCode) :: assembled d' bs

/-- 0xE1 takes two more bytes, 0xE0 one -/
def prefixedBytes : List Byte → List Byte
  | [] => []
  | [_] => []
  | [b, c] => if b = 0xe0 then [c] else []
  | b :: c :: d :: bs =>
    if b = 0xe1 then prefixedBytes bs
    else if b = 0xe0 then c :: prefixedBytes (d :: bs)
    else prefixedBytes (c :: d :: bs)

/-! ## the sequences of a stream -/

section
variable (b c : Byte) (bs : List Byte)

theorem assembled_pause : assembled .idle (0xe1 :: b :: c :: bs) = (false, keycodePause) :: assembled .idle bs := rfl

theorem assembled_extended :
    assembled .idle (0xe0 :: b :: bs) = (true, csGetKeyCodeFromScanCode b true false) :: assembled .idle bs := rfl

variable {b}

theorem csAssemble_single (h1 : b ≠ 0xe1) (h0 : b ≠ 0xe0) :
    csAssembleScanCodeToKeyCode .idle b = (some (csGetKeyCodeFromScanCode b false false), .idle) := by
  show (if b = 0xe1 then _ else if b = 0xe0 then _ else _) = _
  rw [if_neg h1, if_neg h0]

theorem assembled_single (h1 : b ≠ 0xe1) (h0 : b ≠ 0xe0) :
    assembled .idle (b :: bs) = (false, csGetKeyCodeFromScanCode b false false) :: assembled .idle bs := by
  rw [assembled, csAssemble_single h1 h0]
  rfl

end

/-! ## the key codes of the bytes -/

/-- the table has an entry of its own for the key -/
def InTable (c : Bool × KeyCode) : Prop := keyIndex c.2 < g_KeyTable.length ∧ (c.1 = true → 0x58 < keyIndex c.2)

def ExternByte (b : Byte) : Prop := 0x1c ≤ (b &&& 0x7f).toNat ∧ (b &&& 0x7f).toNat ≤ 0x54

theorem g_KeyTable_length : g_KeyTable.length = 0x92 := by decide +kernel

theorem keyIndex_single (b : Byte) : keyIndex (csGetKeyCodeFromScanCode b false false) = (b &&& 0x7f).toNat := by
  revert b
  decide +kernel

theorem keyIndex_extended (b : Byte) : keyIndex (csGetKeyCodeFromScanCode b true false) = (b &&& 0x7f).toNat + 0x3d := by
  revert b
  decide +kernel

theorem low7_le (b : Byte) : (b &&& 0x7f).toNat ≤ 0x7f := by
  revert b
  decide +kernel

theorem inTable_single (b : Byte) : InTable (false, csGetKeyCodeFromScanCode b false false) := by
  refine ⟨?_, nofun⟩
  rw [keyIndex_single, g_KeyTable_length]
  exact Nat.lt_of_le_of_lt (low7_le b) (by decide)

theorem inTable_pause : InTable (false, keycodePause) := ⟨by rw [g_KeyTable_length]; decide, nofun⟩

/-- the first extended key is 0x1C, with the code 0x59, and the last code is 0x91 -/
theorem inTable_extended (b : Byte) : InTable (true, csGetKeyCodeFromScanCode b true false) ↔ ExternByte b := by
  unfold InTable ExternByte
  rw [keyIndex_extended, g_KeyTable_length]
  exact ⟨fun ⟨h1, h2⟩ => ⟨by have := h2 rfl; omega, by omega⟩, fun ⟨h1, h2⟩ => ⟨by omega, fun _ => by omega⟩⟩

/-! ## streams -/

/-- one byte is a key of its own, or an incomplete sequence -/
theorem inTable_last (b : Byte) : ∀ c ∈ assembled .idle [b], InTable c := by
  by_cases h1 : b = 0xe1
  · rw [h1]
    exact List.forall_mem_nil _
  · by_cases h0 : b = 0xe0
    · rw [h0]
      exact List.forall_mem_nil _
    · rw [assembled_single [] h1 h0]
      exact List.forall_mem_singleton.mpr (inTable_single b)

theorem assembled_inTable (stream : List Byte) :
    (∀ c ∈ assembled .idle stream, InTable c) ↔ ∀ b ∈ prefixedBytes stream, ExternByte b := by
  fun_induction prefixedBytes stream with
  | case1 => exact iff_of_true (List.forall_mem_nil _) (List.forall_mem_nil _)
  | case2 b => exact iff_of_true (inTable_last b) (List.forall_mem_nil _)
  | case3 c =>
    rw [assembled_extended c [], List.forall_mem_cons, inTable_extended, List.forall_mem_singleton]
    exact and_iff_left (List.forall_mem_nil _)
  | case4 b c h0 =>
    refine iff_of_true ?_ (List.forall_mem_nil _)
    by_cases h1 : b = 0xe1
    · rw [h1]
      exact List.forall_mem_nil _
    · rw [assembled_single [c] h1 h0]
      exact List.forall_mem_cons.mpr ⟨inTable_single b, inTable_last c⟩
  | case5 c d bs ih =>
    rw [assembled_pause, List.forall_mem_cons, ← ih]
    exact and_iff_right inTable_pause
  | case6 c d bs h1 ih => rw [assembled_extended, List.forall_mem_cons, List.forall_mem_cons, inTable_extended, ih]
  | case7 b c d bs h1 h0 ih =>
    rw [assembled_single _ h1 h0, List.forall_mem_cons, ← ih]
    exact and_iff_right (inTable_single b)

/-- a key code is handled just in case it is an index into the table -/
theorem onKeyCode_isSome (s : Keys) (keyCode : KeyCode) :
    (onKeyCode s keyCode).isSome ↔ keyIndex keyCode < g_KeyTable.length := by
  unfold onKeyCode ckGetCasciiFromKeyCode
  rw [Option.isSome_map, Option.isSome_map, isSome_getElem?]

theorem onKeyCode_decoder {s s' : Keys} {keyCode : KeyCode} {effects : List KeyEffect}
    (h : onKeyCode s keyCode = some (s', effects)) : s'.decoder = s.decoder := by
  obtain ⟨cascii, _, hs⟩ := Option.map_eq_some_iff.mp h
  exact (congrArg (fun r => r.1.decoder) hs).symm

theorem setWidth_byte (b : Byte) : (b.setWidth 32).setWidth 8 = b := by
  rw [BitVec.setWidth_setWidth_of_le _ (by decide), BitVec.setWidth_eq]

theorem feed_isSome : ∀ (stream : List Byte) (s : Keys),
    (feed s stream).isSome ↔ ∀ c ∈ assembled s.decoder stream, keyIndex c.2 < g_KeyTable.length
  | [], s => iff_of_true rfl (List.forall_mem_nil _)
  | b :: bs, s => by
    unfold feed assembled ckOnKeyboardInterrupt
    rw [setWidth_byte]
    rcases hd : csAssembleScanCodeToKeyCode s.decoder b with ⟨_ | keyCode, d⟩
    · show (Option.map _ (feed { s with decoder := d } bs)).isSome ↔ _
      rw [Option.isSome_map]
      exact feed_isSome bs { s with decoder := d }
    · show (Option.bind (onKeyCode { s with decoder := d } keyCode) _).isSome ↔ _
      rw [List.forall_mem_cons, ← onKeyCode_isSome { s with decoder := d } keyCode]
      cases hk : onKeyCode { s with decoder := d } keyCode with
      | none => exact iff_of_false Bool.false_ne_true fun h => Bool.false_ne_true h.1
      | some r =>
        show (Option.map _ (feed r.1 bs)).isSome ↔ _
        have hdec : r.1.decoder = d := onKeyCode_decoder hk
        rw [Option.isSome_map, feed_isSome bs r.1, hdec]
        exact (and_iff_right rfl).symm

/-- **Streams inside the table**: every key code is an index into it, no byte makes an access outside, and no
key with the prefix 0xE0 has the code of a key without one. -/
theorem stream_in_table (g : KeyboardStruct) (stream : List Byte) :
    ((∀ c ∈ assembled .idle stream, keyIndex c.2 < g_KeyTable.length ∧ (c.1 = true → 0x58 < keyIndex c.2)) ∧
      (feed (Keys.start g) stream).isSome) ↔
    ∀ b ∈ prefixedBytes stream, 0x1c ≤ (b &&& 0x7f).toNat ∧ (b &&& 0x7f).toNat ≤ 0x54 := by
  refine Iff.trans ?_ (assembled_inTable stream)
  refine and_iff_left_of_imp fun h => ?_
  exact (feed_isSome stream (Keys.start g)).mpr fun c hc => (h c hc).1

/-- **The left logo key**, 0xE0 0x5B, has the key code 0x98. -/
theorem stream_leaves_table : assembled .idle [0xe0, 0x5b] = [(true, 0x98)] ∧ ¬ 0x98 < g_KeyTable.length ∧
    (feed (Keys.start g_Keyboard) [0xe0, 0x5b]).isSome = false := by
  decide +kernel

end Clubcos
