import Clubcos.Edimg.Imgin

/-!
# The table, saved and loaded

* `load_save16`, `load_save12`   **an entry of the table** is the same again, if the table in the image has room for it;
* `loadFat16_lt`, `loadFat12_fits`   what an entry can be;
* `saveFat_outside`              nothing else in the image changes.
-/

namespace Clubcos.Edimg
open Bytes Word

variable {fat fat₀ : Nat → Nat} {m : Nat → BitVec 8} {fat0 len : Nat}

/-! ## FAT16 -/

theorem loadFat16_eq {j : Nat} (hj : j < len / 2) : loadFat16 m fat0 len fat j = ofLe (read m (fat0 + 2 * j) 2) := by
  have hblock : Blockwise (fun fat t => Function.update fat t (ofLe (read m (fat0 + 2 * t) 2))) 0 1 :=
    ⟨fun fat t a ha => Function.update_of_ne (by omega) _ _, fun fat fat' t _ a h1 h2 => by
      have hat : a = t := by omega
      rw [hat, Function.update_self, Function.update_self]⟩
  rw [loadFat16, foldl_block hblock fat hj j (by omega) (by omega), Function.update_self]

theorem saveFat16_block (fat : Nat → Nat) (fat0 : Nat) :
    Blockwise (fun m i => Function.update m (fat0 + i) (fatByte fat i)) fat0 1 :=
  ⟨fun m t a ha => Function.update_of_ne (by omega) _ _, fun m m' t _ a h1 h2 => by
    have hat : a = fat0 + t := by omega
    rw [hat, Function.update_self, Function.update_self]⟩

theorem saveFat16_inside {i : Nat} (hi : i < len) : saveFat16 fat fat0 len m (fat0 + i) = fatByte fat i := by
  rw [saveFat16, foldl_block (saveFat16_block fat fat0) m hi _ (by omega) (by omega), Function.update_self]

theorem saveFat16_outside {a : Nat} (ha : a < fat0 ∨ fat0 + len ≤ a) : saveFat16 fat fat0 len m a = m a :=
  (saveFat16_block fat fat0).outside_range len m (by omega)

/-- **An entry of FAT16** is loaded again as it was. -/
theorem load_save16 {m' : Nat → BitVec 8} (hm : ∀ i < len, m' (fat0 + i) = saveFat16 fat fat0 len m (fat0 + i)) {j : Nat}
    (hj : 2 * (j + 1) ≤ len) (hv : fat j < 65536) : loadFat16 m' fat0 len fat₀ j = fat j := by
  have hlow : m' (fat0 + 2 * j) = BitVec.ofNat 8 (fat j) := by
    rw [hm _ (by omega), saveFat16_inside (by omega), fatByte, Nat.mul_div_cancel_left j Nat.two_pos, Nat.mul_mod_right]
    rfl
  have hhigh : m' (fat0 + 2 * j + 1) = BitVec.ofNat 8 (fat j / 256) := by
    rw [Nat.add_assoc, hm _ (by omega), saveFat16_inside (by omega), fatByte, Nat.mul_add_div Nat.two_pos,
      Nat.mul_add_mod, Nat.add_zero, Nat.shiftRight_eq_div_pow]
  have hread : read m' (fat0 + 2 * j) 2 = toLe 2 (fat j) := by
    show [m' (fat0 + 2 * j), m' (fat0 + 2 * j + 1)] = _
    rw [hlow, hhigh]
    rfl
  rw [loadFat16_eq (by omega), hread, ofLe_toLe]
  exact Nat.mod_eq_of_lt hv

/-! ## FAT12 -/

/-- The numbers that 12 bits stand for: a cluster, or the end of a chain. -/
def Fits12 (v : Nat) : Prop := v < 0xff7 ∨ (0xfff7 ≤ v ∧ v < 65536)

theorem low_nibble (b x y : BitVec 8) : ((b &&& 0xf0 ||| x &&& 0x0f) &&& 0x0f ||| y &&& 0xf0) &&& 0x0f = x &&& 0x0f := by
  simp [BitVec.and_or_distrib_right, BitVec.and_assoc]

theorem low_nibble_alone (b x : BitVec 8) : (b &&& 0xf0 ||| x &&& 0x0f) &&& 0x0f = x &&& 0x0f := by
  simp [BitVec.and_or_distrib_right, BitVec.and_assoc]

theorem high_nibble (b y : BitVec 8) : (b &&& 0x0f ||| y &&& 0xf0) >>> 4 &&& 0x0f = y >>> 4 := by
  apply BitVec.eq_of_getLsbD_eq
  intro i hi
  have h : i = 0 ∨ i = 1 ∨ i = 2 ∨ i = 3 ∨ i = 4 ∨ i = 5 ∨ i = 6 ∨ i = 7 := by omega
  rcases h with rfl | rfl | rfl | rfl | rfl | rfl | rfl | rfl <;> simp

theorem low_nibble_toNat (x : BitVec 8) : (x &&& 0x0f).toNat = x.toNat % 16 := by
  rw [BitVec.toNat_and]
  exact Nat.and_two_pow_sub_one_eq_mod x.toNat 4

/-- the two halves of an entry -/
theorem entry_low (v : Nat) : (BitVec.ofNat 8 v).toNat ||| (BitVec.ofNat 8 (v >>> 8) &&& 0x0f).toNat <<< 8 = v % 4096 := by
  rw [low_nibble_toNat, BitVec.toNat_ofNat, BitVec.toNat_ofNat, Nat.or_comm, ← Nat.shiftLeft_add_eq_or_of_lt (by omega),
    Nat.shiftLeft_eq, Nat.shiftRight_eq_div_pow]
  omega

theorem entry_high (v : Nat) : (BitVec.ofNat 8 (v <<< 4) >>> 4).toNat ||| (BitVec.ofNat 8 (v >>> 4)).toNat <<< 4 = v % 4096 := by
  rw [BitVec.toNat_ushiftRight, BitVec.toNat_ofNat, BitVec.toNat_ofNat, Nat.shiftRight_eq_div_pow,
    Nat.shiftRight_eq_div_pow, Nat.or_comm, ← Nat.shiftLeft_add_eq_or_of_lt (by omega), Nat.shiftLeft_eq, Nat.shiftLeft_eq]
  omega

section
variable (fat : Nat → Nat) (fat0 len : Nat) (m : Nat → BitVec 8) (t : Nat)

theorem pack12_first : pack12 fat fat0 len m t (fat0 + 3 * t) =
    if 3 * t + 1 < len then BitVec.ofNat 8 (fat (2 * t)) else m (fat0 + 3 * t) := by
  unfold pack12
  by_cases h1 : 3 * t + 1 < len <;> by_cases h2 : 3 * t + 2 < len <;> simp [h1, h2]

/-- the byte that two entries share -/
theorem pack12_middle : pack12 fat fat0 len m t (fat0 + 3 * t + 1) =
    let b := if 3 * t + 1 < len then m (fat0 + 3 * t + 1) &&& 0xf0 ||| BitVec.ofNat 8 (fat (2 * t) >>> 8) &&& 0x0f
      else m (fat0 + 3 * t + 1)
    if 3 * t + 2 < len then b &&& 0x0f ||| BitVec.ofNat 8 (fat (2 * t + 1) <<< 4) &&& 0xf0 else b := by
  unfold pack12
  by_cases h1 : 3 * t + 1 < len <;> by_cases h2 : 3 * t + 2 < len <;> simp [h1, h2]

theorem pack12_last : pack12 fat fat0 len m t (fat0 + 3 * t + 2) =
    if 3 * t + 2 < len then BitVec.ofNat 8 (fat (2 * t + 1) >>> 4) else m (fat0 + 3 * t + 2) := by
  unfold pack12
  by_cases h1 : 3 * t + 1 < len <;> by_cases h2 : 3 * t + 2 < len <;> simp [h1, h2]

theorem pack12_other {a : Nat} (h0 : a = fat0 + 3 * t → len ≤ 3 * t + 1) (h1 : a = fat0 + 3 * t + 1 → len ≤ 3 * t + 1)
    (h2 : a = fat0 + 3 * t + 2 → len ≤ 3 * t + 2) : pack12 fat fat0 len m t a = m a := by
  unfold pack12
  by_cases h3 : 3 * t + 1 < len <;> by_cases h4 : 3 * t + 2 < len <;> simp only [h3, h4, if_true, if_false]
  · rw [Function.update_of_ne (by omega), Function.update_of_ne (by omega), Function.update_of_ne (by omega),
      Function.update_of_ne (by omega)]
  · rw [Function.update_of_ne (by omega), Function.update_of_ne (by omega)]
  · omega

theorem pack12_block : Blockwise (pack12 fat fat0 len) fat0 3 := by
  constructor
  · intro m t a ha
    exact pack12_other fat fat0 len m t (by omega) (by omega) (by omega)
  · intro m m' t hm a h1 h2
    have h : a = fat0 + 3 * t ∨ a = fat0 + 3 * t + 1 ∨ a = fat0 + 3 * t + 2 := by omega
    rcases h with rfl | rfl | rfl
    · rw [pack12_first, pack12_first, hm _ h1 h2]
    · rw [pack12_middle, pack12_middle, hm _ h1 h2]
    · rw [pack12_last, pack12_last, hm _ h1 h2]

end

theorem saveFat12_outside {a : Nat} (ha : a < fat0 ∨ fat0 + len ≤ a) : saveFat12 fat fat0 len m a = m a := by
  apply foldl_keeps
  intro m t _
  exact pack12_other fat fat0 len m t (by omega) (by omega) (by omega)

theorem lt_rounds {t : Nat} (ht : 3 * t < len) : t < ceilDiv len 3 := by
  unfold ceilDiv
  omega

theorem saveFat12_inside {t : Nat} (ht : 3 * t < len) {a : Nat} (h1 : fat0 + 3 * t ≤ a) (h2 : a < fat0 + 3 * (t + 1)) :
    saveFat12 fat fat0 len m a = pack12 fat fat0 len m t a := by
  exact foldl_block (pack12_block fat fat0 len) m (lt_rounds ht) a h1 h2

theorem loadFat12_block (m : Nat → BitVec 8) (fat0 : Nat) : Blockwise (fun fat t =>
    let s := unpack12 m (fat0 + 3 * t)
    Function.update (Function.update fat (2 * t) s.1) (2 * t + 1) s.2) 0 2 := by
  constructor
  · intro fat t a ha
    show Function.update (Function.update fat (2 * t) _) (2 * t + 1) _ a = _
    rw [Function.update_of_ne (by omega), Function.update_of_ne (by omega)]
  · intro fat fat' t _ a h1 h2
    have h : a = 2 * t ∨ a = 2 * t + 1 := by omega
    rcases h with rfl | rfl <;> simp

theorem loadFat12_even {t : Nat} (ht : 3 * t < len) :
    loadFat12 m fat0 len fat (2 * t) = (unpack12 m (fat0 + 3 * t)).1 := by
  rw [loadFat12, foldl_block (loadFat12_block m fat0) fat (lt_rounds ht) _ (by omega) (by omega)]
  simp

theorem loadFat12_odd {t : Nat} (ht : 3 * t < len) :
    loadFat12 m fat0 len fat (2 * t + 1) = (unpack12 m (fat0 + 3 * t)).2 := by
  rw [loadFat12, foldl_block (loadFat12_block m fat0) fat (lt_rounds ht) _ (by omega) (by omega)]
  simp

theorem extend12_fits {v : Nat} (hv : Fits12 v) : extend12 (v % 4096) = v := by
  unfold extend12
  rcases hv with hv | ⟨h1, h2⟩
  · rw [if_neg (by omega)]
    omega
  · have hor : 0xf <<< 12 + v % 4096 = 0xf <<< 12 ||| v % 4096 := Nat.shiftLeft_add_eq_or_of_lt (by omega) 0xf
    rw [if_pos (by omega), Nat.or_comm]
    show 0xf <<< 12 ||| v % 4096 = v
    rw [← hor]
    omega

/-- what 12 bits stand for when they are loaded -/
theorem fits12_extend {v : Nat} (hv : v < 4096) : Fits12 (extend12 v) := by
  unfold extend12 Fits12
  split
  · have hor : 0xf <<< 12 + v = 0xf <<< 12 ||| v := Nat.shiftLeft_add_eq_or_of_lt hv 0xf
    rw [Nat.or_comm]
    show 0xf <<< 12 ||| v < 0xff7 ∨ (0xfff7 ≤ 0xf <<< 12 ||| v ∧ 0xf <<< 12 ||| v < 65536)
    rw [← hor]
    omega
  · omega

/-- **An entry of FAT12** is loaded again as it was. -/
theorem load_save12 {m' : Nat → BitVec 8} (hm : ∀ i < len, m' (fat0 + i) = saveFat12 fat fat0 len m (fat0 + i)) {j : Nat}
    (hj : 3 * (j + 1) ≤ 2 * len) (hv : Fits12 (fat j)) : loadFat12 m' fat0 len fat₀ j = fat j := by
  have hparity : ∃ t, j = 2 * t ∨ j = 2 * t + 1 := ⟨j / 2, by omega⟩
  obtain ⟨t, rfl | rfl⟩ := hparity
  · have h0 : m' (fat0 + 3 * t) = BitVec.ofNat 8 (fat (2 * t)) := by
      rw [hm _ (by omega), saveFat12_inside (by omega) (Nat.le_refl _) (by omega), pack12_first, if_pos (by omega)]
    have h1 : m' (fat0 + 3 * t + 1) &&& (0x0f : BitVec 8) = BitVec.ofNat 8 (fat (2 * t) >>> 8) &&& 0x0f := by
      rw [Nat.add_assoc, hm _ (by omega), ← Nat.add_assoc, saveFat12_inside (t := t) (by omega) (by omega) (by omega),
        pack12_middle]
      simp only [if_pos (show 3 * t + 1 < len by omega)]
      split
      · exact low_nibble _ _ _
      · exact low_nibble_alone _ _
    rw [loadFat12_even (by omega)]
    show extend12 ((m' (fat0 + 3 * t)).toNat ||| (m' (fat0 + 3 * t + 1) &&& 0x0f).toNat <<< 8) = _
    rw [h0, h1, entry_low, extend12_fits hv]
  · have h1 : m' (fat0 + 3 * t + 1) >>> 4 &&& (0x0f : BitVec 8) = BitVec.ofNat 8 (fat (2 * t + 1) <<< 4) >>> 4 := by
      rw [Nat.add_assoc, hm _ (by omega), ← Nat.add_assoc, saveFat12_inside (t := t) (by omega) (by omega) (by omega),
        pack12_middle]
      simp only [if_pos (show 3 * t + 2 < len by omega)]
      exact high_nibble _ _
    have h2 : m' (fat0 + 3 * t + 2) = BitVec.ofNat 8 (fat (2 * t + 1) >>> 4) := by
      rw [Nat.add_assoc, hm _ (by omega), ← Nat.add_assoc, saveFat12_inside (t := t) (by omega) (by omega) (by omega),
        pack12_last, if_pos (by omega)]
    rw [loadFat12_odd (by omega)]
    show extend12 ((m' (fat0 + 3 * t + 1) >>> 4 &&& 0x0f).toNat ||| (m' (fat0 + 3 * t + 2)).toNat <<< 4) = _
    rw [h1, h2, entry_high, extend12_fits hv]

theorem loadFat16_lt {j : Nat} (hj : 2 * (j + 1) ≤ len) : loadFat16 m fat0 len fat j < 65536 := by
  rw [loadFat16_eq (by omega)]
  have h := ofLe_lt (read m (fat0 + 2 * j) 2)
  rw [read_length] at h
  exact h

theorem loadFat12_fits {j : Nat} (hj : 3 * (j + 1) ≤ 2 * len) : Fits12 (loadFat12 m fat0 len fat j) := by
  have hparity : ∃ t, j = 2 * t ∨ j = 2 * t + 1 := ⟨j / 2, by omega⟩
  have hbyte : ∀ a, (m a).toNat < 2^8 := fun a => (m a).isLt
  have hnibble : ∀ b : BitVec 8, (b &&& 0x0f).toNat < 16 := by
    intro b
    rw [low_nibble_toNat]
    omega
  obtain ⟨t, rfl | rfl⟩ := hparity
  · rw [loadFat12_even (by omega)]
    apply fits12_extend
    refine Nat.or_lt_two_pow (n := 12) ((hbyte _).trans (by omega)) ?_
    rw [Nat.shiftLeft_eq]
    have := hnibble (m (fat0 + 3 * t + 1))
    omega
  · rw [loadFat12_odd (by omega)]
    apply fits12_extend
    refine Nat.or_lt_two_pow (n := 12) ((hnibble _).trans (by omega)) ?_
    rw [Nat.shiftLeft_eq]
    have := hbyte (fat0 + 3 * t + 2)
    omega

/-! ## the image -/

theorem copyFat_outside {fat1 a : Nat} (zero : Bool) (ha : a < fat1 ∨ fat1 + len ≤ a) :
    copyFat fat0 fat1 len zero m a = m a := by
  apply foldl_keeps
  intro m t ht
  have := List.mem_range.mp ht
  exact Function.update_of_ne (by omega) _ _

/-- what the table in the image is when it is saved -/
def savedTable (s : Image) (len : Nat) : Nat → BitVec 8 :=
  let m := if s.flag &&& 1 = 0 then s.imgbuf0 else saveFat16 s.fat s.fat0 len s.imgbuf0
  if s.flag &&& 2 = 0 then m else saveFat12 s.fat s.fat0 len m

theorem saveFat_eq (s : Image) : saveFat s = { s with imgbuf0 := (saveFat s).imgbuf0 } := by
  unfold saveFat
  by_cases h1 : s.flag &&& 1 = 0 <;> by_cases h2 : s.flag &&& 2 = 0 <;> by_cases h3 : s.fat0 < s.fat1 <;>
    simp only [h1, h2, h3, if_true, if_false]

/-- `opt_imgout` changes the two tables only, the first of them to `savedTable`. -/
theorem saveFat_apply (s : Image) {a : Nat} (h : s.fat0 < s.fat1 →
    a < s.fat1 ∨ s.fat1 + s.word (s.BPB + 0x16) * s.len_sec ≤ a) :
    (saveFat s).imgbuf0 a = savedTable s (s.word (s.BPB + 0x16) * s.len_sec) a := by
  unfold saveFat savedTable
  by_cases h1 : s.flag &&& 1 = 0 <;> by_cases h2 : s.flag &&& 2 = 0 <;> by_cases h3 : s.fat0 < s.fat1 <;>
    simp only [h1, h2, h3, if_true, if_false] <;> exact copyFat_outside _ (h h3)

theorem savedTable_outside (s : Image) {len a : Nat} (ha : a < s.fat0 ∨ s.fat0 + len ≤ a) :
    savedTable s len a = s.imgbuf0 a := by
  unfold savedTable
  by_cases h1 : s.flag &&& 1 = 0 <;> by_cases h2 : s.flag &&& 2 = 0 <;> simp only [h1, h2, if_true, if_false]
  · exact saveFat12_outside ha
  · exact saveFat16_outside ha
  · exact (saveFat12_outside ha).trans (saveFat16_outside ha)

end Clubcos.Edimg
