import Mathlib.Data.Nat.Log
import Clubcos.Memory.Bits

/-!
# What an allocation does to the table of free blocks

`sizeLevel size` is the least `k` with `size ≤ 4096 * 2^k`.  For a heap whose table is the table
`Maxi F` of the maximal blocks of a set `F` of free units:

* `bitmapIdx_eq`     the level loop stops at `sizeLevel size`;
* `splitLoop_spec`   the splitting loop marks one block per level on its way down;
* `allocate_spec`    an allocation hands out a block `a` of level `sizeLevel size` with
                     `Full F k a` and leaves the table of `F` without it, or there is no such block
                     and it returns `NULL` and changes nothing.
-/

set_option linter.unusedVariables false

namespace Clubcos
open Word Dyadic

/-- the least `k` with `size ≤ 4096 * 2^k` -/
def sizeLevel (size : Nat) : Nat := Nat.clog 2 ((size + 4095) / 4096)

theorem sizeLevel_le_iff {size k : Nat} : sizeLevel size ≤ k ↔ size ≤ 4096 * 2^k := by
  show Nat.clog 2 ((size + 4095) / 4096) ≤ k ↔ _
  rw [Nat.clog_le_iff_le_pow (by omega)]
  omega

theorem lt_sizeLevel_iff {size k : Nat} : k < sizeLevel size ↔ 4096 * 2^k < size := by
  rw [← Nat.not_le, sizeLevel_le_iff, Nat.not_le]

theorem sizeLevel_lt {size : Nat} (h : size ≤ 2^31) : sizeLevel size < 20 := by
  have h1 : sizeLevel size ≤ 19 := sizeLevel_le_iff.mpr (by omega)
  omega

theorem sizeLevel_page (k : Nat) : sizeLevel (4096 * 2^k) = k := by
  apply Nat.le_antisymm
  · exact sizeLevel_le_iff.mpr (Nat.le_refl _)
  · have h1 : 4096 * 2^k ≤ 4096 * 2^(sizeLevel (4096 * 2^k)) := sizeLevel_le_iff.mp (Nat.le_refl _)
    exact (Nat.pow_le_pow_iff_right (by omega)).mp (Nat.le_of_mul_le_mul_left h1 (by omega))

/-! ## sizes -/

theorem ceilUint32_eq {size : Nat} (h0 : 1 ≤ size) (h : size ≤ 2^31) :
    ceilUint32 size dynMemBuddyUnitSize = (size + 4095) / 4096 * 4096 := by
  show u32 (size + 4096 - 1) / 4096 * 4096 = _
  rw [u32_of_lt (by omega)]
  rfl

theorem ceil_le_iff {size k : Nat} :
    (size + 4095) / 4096 * 4096 ≤ 4096 * 2^k ↔ size ≤ 4096 * 2^k := by omega

theorem unit_shl {k : Nat} (h : k < 20) : u32 (dynMemBuddyUnitSize <<< k) = 4096 * 2^k := by
  have h1 : 2^k ≤ 2^19 := Nat.pow_le_pow_right (by omega) (by omega)
  have e : dynMemBuddyUnitSize <<< k = 4096 * 2^k := Nat.shiftLeft_eq 4096 k
  rw [e, u32_of_lt (by omega)]

/-- the level loop stops at the first level it is not told to pass -/
theorem bitmapIdxLoop_spec (size : Nat) (fuel idx k : Nat) (h0 : idx ≤ k) (h1 : k < idx + fuel)
    (hlt : ∀ j, idx ≤ j → j < k → u32 (dynMemBuddyUnitSize <<< j) < size)
    (hk : ¬ u32 (dynMemBuddyUnitSize <<< k) < size) : bitmapIdxLoop size fuel idx = some k := by
  induction fuel generalizing idx with
  | zero => omega
  | succ fuel ih =>
    show (if u32 (dynMemBuddyUnitSize <<< idx) < size then bitmapIdxLoop size fuel (idx+1)
      else some idx) = some k
    rcases Nat.lt_or_ge idx k with h | h
    · rw [if_pos (hlt idx (Nat.le_refl _) h)]
      exact ih (idx+1) h (by omega) (fun j hj hjk => hlt j (by omega) hjk)
    · have e : idx = k := by omega
      rw [e, if_neg hk]

theorem bitmapIdx_eq {size : Nat} (h0 : 1 ≤ size) (h : size ≤ 2^31) :
    bitmapIdx (ceilUint32 size dynMemBuddyUnitSize) = some (sizeLevel size) := by
  have hk := sizeLevel_lt h
  rw [ceilUint32_eq h0 h]
  refine bitmapIdxLoop_spec _ 32 0 _ (Nat.zero_le _) (by omega) ?_ ?_
  · intro j _ hj
    rw [unit_shl (by omega), ← Nat.not_le, ceil_le_iff, Nat.not_le]
    exact lt_sizeLevel_iff.mp hj
  · rw [unit_shl hk, Nat.not_lt, ceil_le_iff]
    exact sizeLevel_le_iff.mp (Nat.le_refl _)

/-! ## full blocks of a bounded set -/

section
variable {F : Set Nat} {N : Nat} (hF : ∀ u ∈ F, u < N)
include hF

theorem full_lt {i b : Nat} (h : Full F i b) : b < N / 2^i := by
  have h1 := hF _ (h (last_mem i b))
  have hp := Nat.two_pow_pos i
  rw [← Nat.succ_le_iff, Nat.le_div_iff_mul_le hp]
  have h2 : 0 < (b + 1) * 2^i := Nat.mul_pos (Nat.succ_pos b) hp
  show (b + 1) * 2^i ≤ N
  omega

theorem full_level_lt {i b : Nat} (h : Full F i b) : i < Nat.log2 N + 1 := by
  have h1 := full_lt hF h
  have h2 : 0 < N / 2^i := by omega
  have h3 : 2^i ≤ N := by
    by_contra hlt
    rw [Nat.div_eq_of_lt (by omega)] at h2
    omega
  have h4 := Nat.two_pow_pos i
  have h5 := (Nat.le_log2 (by omega)).mpr h3
  omega

end

/-! ## splitting -/

/-- **The splitting loop** goes down `n` levels and marks the right half at each. -/
theorem splitLoop_spec (start n block : Nat) (g : DynMemStruct) (N : Nat) (T : Nat → Nat → Prop)
    (h : Tab g N T) (hlev : start + n ≤ g.bitmapLevel)
    (hfree : ∀ i, start ≤ i → i < start + n → ¬ T i (block * 2^(start+n-i) + 1) ∧
      block * 2^(start+n-i) + 1 < N / 2^i) :
    ∃ g', splitLoop start n block g = (block * 2^n, g') ∧ Frame g g' ∧
      Tab g' N (fun i c => T i c ∨ (start ≤ i ∧ i < start + n ∧ c = block * 2^(start+n-i) + 1)) := by
  induction n generalizing block g T with
  | zero =>
    refine ⟨g, by rw [pow_zero, Nat.mul_one]; rfl, Frame.refl g, h.congr fun i c => ?_⟩
    constructor
    · rintro (h1 | h1)
      · exact h1
      · omega
    · exact Or.inl
  | succ n ih =>
    have hpow : ∀ i, i < start + n → block * 2 * 2^(start+n-i) = block * 2^(start+(n+1)-i) := by
      intro i hi
      have e : start + (n+1) - i = (start + n - i) + 1 := by omega
      rw [e, pow_succ, Nat.mul_assoc, Nat.mul_comm 2]
    have htop : block * 2^(start+(n+1)-(start+n)) = block * 2 := by
      have e : start + (n+1) - (start+n) = 1 := by omega
      rw [e, pow_one]
    obtain ⟨hT, hlt⟩ := hfree (start+n) (by omega) (by omega)
    rw [htop] at hT hlt
    have hmark := h.mark (show start + n < g.bitmapLevel by omega) hlt hT
    have hfr := frame_mark g (start+n) (block * 2 + 1)
    obtain ⟨g', e, hf, hg'⟩ := ih (block * 2) (g.mark (start+n) (block * 2 + 1)) _ hmark
      (by rw [hfr.bitmapLevel]; omega) (by
        intro i hi hin
        obtain ⟨h1, h2⟩ := hfree i hi (by omega)
        rw [hpow i hin]
        refine ⟨?_, h2⟩
        rintro (h3 | ⟨h3, _⟩)
        · exact h1 h3
        · omega)
    refine ⟨g', ?_, hfr.trans hf, hg'.congr fun i c => ?_⟩
    · rw [splitLoop_succ, e, pow_succ, Nat.mul_assoc, Nat.mul_comm 2]
    · constructor
      · rintro (h1 | ⟨h1, h2, h3⟩)
        · exact Or.inl (Or.inl h1)
        · by_cases hi : i = start + n
          · subst hi
            rw [htop] at h3
            exact Or.inl (Or.inr ⟨rfl, h3⟩)
          · have hin : i < start + n := by omega
            exact Or.inr ⟨h1, hin, by rw [hpow i hin]; exact h3⟩
      · rintro ((h1 | ⟨rfl, h1⟩) | ⟨h1, h2, h3⟩)
        · exact Or.inl h1
        · exact Or.inr ⟨by omega, by omega, by rw [htop]; exact h1⟩
        · exact Or.inr ⟨h1, by omega, by rw [← hpow i h2]; exact h3⟩

/-! ## the search over the levels -/

theorem allocLoop_spec (g : DynMemStruct) (start size n now : Nat) :
    (allocLoop g start size n now = some (0, g) ∧
        ∀ j, now ≤ j → j < now + n → (g.arBitmap j).count = 0) ∨
      ∃ j, now ≤ j ∧ j < now + n ∧ (g.arBitmap j).count ≠ 0 ∧
        allocLoop g start size n now = takeBlock g start size j := by
  induction n generalizing now with
  | zero => exact Or.inl ⟨rfl, fun j h1 h2 => by omega⟩
  | succ n ih =>
    have e : allocLoop g start size (n+1) now = if (g.arBitmap now).count = 0 then
      allocLoop g start size n (now+1) else takeBlock g start size now := rfl
    by_cases h0 : (g.arBitmap now).count = 0
    · rw [e, if_pos h0]
      rcases ih (now+1) with ⟨h1, h2⟩ | ⟨j, h1, h2, h3, h4⟩
      · refine Or.inl ⟨h1, fun j hj hjn => ?_⟩
        by_cases hjn' : j = now
        · rw [hjn']; exact h0
        · exact h2 j (by omega) (by omega)
      · exact Or.inr ⟨j, by omega, by omega, h3, h4⟩
    · rw [e, if_neg h0]
      exact Or.inr ⟨now, Nat.le_refl _, by omega, h0, rfl⟩

def DynMemStruct.setUsed (g : DynMemStruct) (n : Nat) : DynMemStruct := { g with usedSize := n }

theorem Tab.setUsed {g : DynMemStruct} {N : Nat} {T : Nat → Nat → Prop} (h : Tab g N T) (n : Nat) :
    Tab (g.setUsed n) N T := ⟨h.lt, h.level, h.rows, h.inside, h.bit_iff, h.count⟩

section
variable {g : DynMemStruct} {N : Nat} {F : Set Nat} (h : Tab g N (Maxi F)) (hF : ∀ u ∈ F, u < N)
include h hF

/-- a level with a count has a free block whose first part of level `start` is handed out -/
theorem takeBlock_spec {start now size : Nat} (hs : start ≤ now) (hlev : now < g.bitmapLevel)
    (hc : (g.arBitmap now).count ≠ 0) :
    ∃ a g', Full F start a ∧ Frame g g' ∧ Tab g' N (Maxi (F \ blk start a)) ∧
      takeBlock g start size now = some (u32 (g.beginAddr + a * u32 (dynMemBuddyUnitSize <<< start)),
        g'.setUsed (u32 (g.usedSize + size))) := by
  obtain ⟨b, num, hb, hnum, hpb, hlow⟩ := h.search hlev hc
  have hun := h.unmark hlev hb
  have hfr := frame_unmark g now b
  have hsub : blk start (b * 2^(now-start)) ⊆ blk now b :=
    sub_of_meet hs (first_mem_sub hs b) (first_mem now b)
  have hsplit := splitLoop_spec start (now - start) b (g.unmark now b) N _ hun
    (by rw [hfr.bitmapLevel]; omega) (by
      intro i hi hin
      have e : start + (now - start) - i = now - i := by omega
      rw [e]
      have hM := (maxi_take hb hs i (b * 2^(now-i) + 1)).mpr (Or.inr ⟨hi, by omega, rfl⟩)
      refine ⟨fun hT => ?_, full_lt hF (hM.1.mono Set.sdiff_subset)⟩
      have hin' : blk i (b * 2^(now-i) + 1) ⊆ blk now b := by
        have hp : 1 < 2^(now-i) := Nat.one_lt_two_pow (by omega)
        have h1 := blk_sub_up (show i ≤ now by omega) (b * 2^(now-i) + 1)
        rwa [Nat.add_comm, Nat.add_mul_div_right _ _ (by omega), Nat.div_eq_of_lt hp,
          Nat.zero_add, Nat.add_comm] at h1
      exact hT.2 (maxi_unique hT.1 hb (first_mem i _) (hin' (first_mem i _))))
  obtain ⟨g', e, hf, hg'⟩ := hsplit
  refine ⟨b * 2^(now-start), g', hb.1.of_sub hsub, hfr.trans hf, hg'.congr fun i c => ?_, ?_⟩
  · have e1 : start + (now - start) = now := by omega
    rw [e1]
    exact maxi_take hb hs i c
  · have hblock : (g.bitAddr now b - (g.arBitmap now).bits) * 8 + num = b := by
      show ((g.arBitmap now).bits + b / 8 - (g.arBitmap now).bits) * 8 + num = b
      omega
    unfold takeBlock
    simp only [hpb, hlow, hnum]
    rw [hnum] at hblock
    rw [hblock]
    show some (u32 (g.beginAddr + (splitLoop start (now - start) b (g.unmark now b)).1 * _),
      (splitLoop start (now - start) b (g.unmark now b)).2.setUsed _) = _
    rw [e]

/-- the search from the level `start` on finds a free block of that level if there is one -/
theorem allocLevels_spec (start size : Nat) :
    ((∀ m, ¬ Full F start m) ∧
        allocLoop g start size (g.bitmapLevel - start) start = some (0, g)) ∨
      ∃ a g', Full F start a ∧ Frame g g' ∧ Tab g' N (Maxi (F \ blk start a)) ∧
        allocLoop g start size (g.bitmapLevel - start) start
          = some (u32 (g.beginAddr + a * u32 (dynMemBuddyUnitSize <<< start)),
            g'.setUsed (u32 (g.usedSize + size))) := by
  rcases allocLoop_spec g start size (g.bitmapLevel - start) start with ⟨h1, h2⟩ | ⟨j, h1, h2, h3, h4⟩
  · refine Or.inl ⟨fun m hm => ?_, h1⟩
    obtain ⟨j, hj, hM⟩ := exists_maxi hF hm
    have hjl := full_level_lt hF hM.1
    have hjl' : j < g.bitmapLevel := by rw [h.level]; exact hjl
    exact (h.count_eq_zero_iff hjl').mp (h2 j hj (by omega)) _ hM
  · rw [h4]
    exact Or.inr (takeBlock_spec h hF h1 (by omega) h3)

/-- **An allocation hands out a free block of its level if there is one**, and takes exactly that
block out of the table; otherwise it returns `NULL` and changes nothing. -/
theorem allocate_spec {size : Nat} (h0 : 1 ≤ size) (hsize : size ≤ 2^31) :
    ((∀ m, ¬ Full F (sizeLevel size) m) ∧ ckDynMemAllocate g size = some (0, g)) ∨
      ∃ a g', Full F (sizeLevel size) a ∧ Frame g g' ∧
        Tab g' N (Maxi (F \ blk (sizeLevel size) a)) ∧
        ckDynMemAllocate g size = some (u32 (g.beginAddr + a * (4096 * 2^(sizeLevel size))),
          g'.setUsed (u32 (g.usedSize + (size + 4095) / 4096 * 4096))) := by
  have hidx := bitmapIdx_eq h0 hsize
  have e : ckDynMemAllocate g size = if g.bitmapLevel ≤ sizeLevel size then some (0, g)
      else allocLoop g (sizeLevel size) (ceilUint32 size dynMemBuddyUnitSize)
        (g.bitmapLevel - sizeLevel size) (sizeLevel size) := by
    unfold ckDynMemAllocate
    rw [if_neg (by omega)]
    simp only [hidx]
  rw [e, ← unit_shl (sizeLevel_lt hsize), ← ceilUint32_eq h0 hsize]
  by_cases hlev : g.bitmapLevel ≤ sizeLevel size
  · rw [if_pos hlev]
    refine Or.inl ⟨fun m hm => ?_, rfl⟩
    have := full_level_lt hF hm
    rw [h.level] at hlev
    omega
  · rw [if_neg hlev]
    exact allocLevels_spec h hF (sizeLevel size) _

end

end Clubcos
