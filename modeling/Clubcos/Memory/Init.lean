import Mathlib.Algebra.BigOperators.Group.Finset.Basic
import Clubcos.Memory.Alloc

/-!
# The heap that `ckDynMemInitialize` sets up

* `metadataLoop_spec`   the metadata is the array and the bitmaps, `metadataBytes` in all;
* `bitmapLoop_spec`     the bitmaps are laid out one behind the other, and level `k` holds one mark,
                        on its last block, exactly when it has an odd number of blocks;
* `initialize_spec`     the table is the one of the maximal blocks of all the `N` unit blocks, and
                        the blocks lie inside the memory that was found.
-/

set_option linter.unusedVariables false

namespace Clubcos
open Word Dyadic

theorem log2_half (sz : Nat) (h : 2 ≤ sz) : Nat.log2 sz = Nat.log2 (sz / 2) + 1 := by
  rw [Nat.log2_def, if_pos h]

theorem log2_one : Nat.log2 1 = 0 := by rw [Nat.log2_def, if_neg (by omega)]

theorem rowLen_half (sz k : Nat) : rowLen (sz / 2) k = rowLen sz (k+1) := by
  show (sz / 2 / 2^k - 1) / 8 + 1 = (sz / 2^(k+1) - 1) / 8 + 1
  rw [Nat.div_div_eq_div_mul, ← pow_succ']

theorem half_div (sz k : Nat) : sz / 2 / 2^k = sz / 2^(k+1) := by
  rw [Nat.div_div_eq_div_mul, ← pow_succ']

/-! ## the size of the metadata -/

/-- the bytes of the array and the bitmaps of `sz` blocks -/
def metadataBytes (sz : Nat) : Nat := ∑ k ∈ Finset.range (Nat.log2 sz + 1), (8 + rowLen sz k)

theorem metadataBytes_one : metadataBytes 1 = 9 := by
  rw [metadataBytes, log2_one, Finset.sum_range_one]
  rfl

theorem rowLen_zero (sz : Nat) : rowLen sz 0 = (sz - 1) / 8 + 1 := by
  rw [rowLen, pow_zero, Nat.div_one]

theorem metadataBytes_half {sz : Nat} (h : 2 ≤ sz) :
    metadataBytes sz = 8 + ((sz - 1) / 8 + 1) + metadataBytes (sz / 2) := by
  rw [metadataBytes, Finset.sum_range_succ', log2_half sz h, rowLen_zero, Nat.add_comm]
  refine congrArg (8 + ((sz - 1) / 8 + 1) + ·) (Finset.sum_congr rfl fun k _ => ?_)
  rw [rowLen_half]

/-- the metadata takes no more than nine bytes for each block -/
theorem metadataBytes_le (sz : Nat) (h : 1 ≤ sz) : metadataBytes sz ≤ 9 * sz := by
  induction sz using Nat.strong_induction_on with
  | _ sz ih =>
    by_cases hone : sz = 1
    · rw [hone, metadataBytes_one]
    · have h1 := ih (sz / 2) (by omega) (by omega)
      rw [metadataBytes_half (by omega)]
      rcases Nat.lt_or_ge sz 3 with h3 | h3
      · obtain rfl : sz = 2 := by omega
        omega
      · omega

/-- the first loop passes every entry of the array and adds up the metadata -/
theorem metadataLoop_spec (fuel : Nat) : ∀ (sz pb beg : Nat), 1 ≤ sz → sz < 2^fuel →
    beg + metadataBytes sz < 2^32 →
    metadataLoop fuel sz pb beg = (pb + 8 * (Nat.log2 sz + 1), beg + metadataBytes sz) := by
  induction fuel with
  | zero =>
    intro sz pb beg h1 h2
    rw [pow_zero] at h2
    omega
  | succ fuel ih =>
    intro sz pb beg h1 h2 h3
    have e : metadataLoop (fuel+1) sz pb beg = if sz = 1 then (pb + 8, u32 (beg + (8 + (sz-1)/8 + 1)))
      else metadataLoop fuel (sz/2) (pb + 8) (u32 (beg + (8 + (sz-1)/8 + 1))) := rfl
    by_cases hone : sz = 1
    · subst hone
      rw [metadataBytes_one] at h3 ⊢
      rw [e, if_pos rfl, log2_one]
      exact congrArg (pb + 8, ·) (u32_of_lt h3)
    · rw [pow_succ] at h2
      rw [metadataBytes_half (by omega)] at h3 ⊢
      rw [e, if_neg hone, u32_of_lt (by omega), ih _ _ _ (by omega) (by omega) (by omega),
        log2_half sz (by omega)]
      refine congrArg₂ Prod.mk ?_ ?_
      · omega
      · omega

/-- the metadata, rounded up, leaves room behind it -/
theorem ceil_metadata_lt {d m : Nat} (h1 : 4096 < d)
    (hm : m ≤ 0x00100000 + 9 * ((d - 1) / 4096 + 1)) :
    (m + 4095) / 4096 * 4096 < 0x00100000 + d := by
  rcases Nat.lt_or_ge ((d - 1) / 4096) 455 with h | h
  · omega
  · omega

/-! ## the bitmaps -/

/-- the bytes of a bitmap of `n` blocks that lies at `pb`, with a mark on the last block if `n` is
odd -/
def rowMem (mem : Nat → BitVec 8) (n pb : Nat) : Nat → BitVec 8 :=
  if n % 2 ≠ 0 then
    Function.update (memset mem pb 0#8 ((n - 1) / 8 + 1)) (pb + ((n - 1) / 8 + 1) - 1) (1#8 <<< (n % 8 - 1))
  else memset mem pb 0#8 ((n - 1) / 8 + 1)

/-- one round of the second loop: the bitmap of `sz` blocks, and the others right behind it -/
theorem bitmapLoop_succ (fuel sz pb i : Nat) (ar : Nat → BuddyBitmap) (mem : Nat → BitVec 8) :
    bitmapLoop (fuel+1) sz pb i ar mem =
      if sz = 1 then (i, Function.update ar i ⟨pb, if sz % 2 ≠ 0 then 1 else 0⟩, rowMem mem sz pb)
      else bitmapLoop fuel (sz/2) (pb + ((sz - 1) / 8 + 1)) (i+1)
        (Function.update ar i ⟨pb, if sz % 2 ≠ 0 then 1 else 0⟩) (rowMem mem sz pb) := rfl

theorem rowMem_below (mem : Nat → BitVec 8) (n pb : Nat) {a : Nat} (ha : a < pb) : rowMem mem n pb a = mem a := by
  have h0 : memset mem pb 0#8 ((n - 1) / 8 + 1) a = mem a := if_neg (by omega)
  unfold rowMem
  by_cases hodd : n % 2 ≠ 0
  · rw [if_pos hodd, Function.update_of_ne (by omega), h0]
  · rw [if_neg hodd, h0]

theorem rowMem_bit (mem : Nat → BitVec 8) (n pb b : Nat) (h1 : 1 ≤ n) (hb : b < 8 * ((n - 1) / 8 + 1)) :
    (rowMem mem n pb (pb + b / 8)).getLsbD (b % 8) = decide (n % 2 = 1 ∧ b + 1 = n) := by
  have hm : b % 8 < 8 := Nat.mod_lt _ (by omega)
  have hzero : memset mem pb 0#8 ((n - 1) / 8 + 1) (pb + b / 8) = 0#8 := if_pos (by omega)
  unfold rowMem
  by_cases hodd : n % 2 ≠ 0
  · rw [if_pos hodd]
    by_cases hlast : b / 8 = (n - 1) / 8
    · have e : pb + b / 8 = pb + ((n - 1) / 8 + 1) - 1 := by omega
      rw [e, Function.update_self, one_shl_bit _ _ hm]
      exact decide_eq_decide.mpr (by omega)
    · rw [Function.update_of_ne (by omega), hzero, BitVec.getLsbD_zero]
      exact (decide_eq_false (by omega)).symm
  · rw [if_neg hodd, hzero, BitVec.getLsbD_zero]
    exact (decide_eq_false (by omega)).symm

/-- The bitmaps of `sz` blocks and their levels, laid out from `pb` on as the levels `i`, `i+1`, … -/
structure Laid (sz pb i : Nat) (ar : Nat → BuddyBitmap) (mem : Nat → BitVec 8) : Prop where
  above : ∀ k ≤ Nat.log2 sz, pb ≤ (ar (i+k)).bits
  apart : ∀ k l, k < l → l ≤ Nat.log2 sz → (ar (i+k)).bits + rowLen sz k ≤ (ar (i+l)).bits
  count : ∀ k ≤ Nat.log2 sz, (ar (i+k)).count = sz / 2^k % 2
  bit : ∀ k ≤ Nat.log2 sz, ∀ b < 8 * rowLen sz k,
    (mem ((ar (i+k)).bits + b / 8)).getLsbD (b % 8)
      = decide (sz / 2^k % 2 = 1 ∧ b + 1 = sz / 2^k)

section

variable {sz pb i : Nat} {ar : Nat → BuddyBitmap} {mem : Nat → BitVec 8} (hbits : (ar i).bits = pb)
  (hcount : (ar i).count = sz % 2) (hbit : ∀ b < 8 * ((sz - 1) / 8 + 1),
    (mem (pb + b / 8)).getLsbD (b % 8) = decide (sz % 2 = 1 ∧ b + 1 = sz))
include hbits hcount hbit

/-- the last level -/
theorem Laid.one (hone : sz = 1) : Laid sz pb i ar mem := by
  have hzero : ∀ k, k ≤ Nat.log2 sz → k = 0 := by
    intro k hk
    rw [hone, log2_one] at hk
    exact Nat.le_zero.mp hk
  refine ⟨fun k hk => ?_, fun k l hkl hl => ?_, fun k hk => ?_, fun k hk b hb => ?_⟩
  · rw [hzero k hk]
    exact hbits.ge
  · rw [hzero l hl] at hkl
    exact absurd hkl (Nat.not_lt_zero k)
  · rw [hzero k hk, pow_zero, Nat.div_one]
    exact hcount
  · rw [hzero k hk] at hb ⊢
    rw [pow_zero, Nat.div_one, Nat.add_zero, hbits]
    refine hbit b ?_
    rwa [rowLen, pow_zero, Nat.div_one] at hb

/-- a level in front of the levels of half as many blocks -/
theorem Laid.cons (hsz : 2 ≤ sz) (hrest : Laid (sz / 2) (pb + ((sz - 1) / 8 + 1)) (i + 1) ar mem) :
    Laid sz pb i ar mem := by
  have hlog := log2_half sz hsz
  have hshift : ∀ k, i + (k+1) = i + 1 + k := fun k => by omega
  refine ⟨fun k hk => ?_, fun k l hkl hl => ?_, fun k hk => ?_, fun k hk b hb => ?_⟩
  · cases k with
    | zero => exact hbits.ge
    | succ k =>
      have := hrest.above k (by omega)
      rw [hshift]
      omega
  · obtain ⟨l', rfl⟩ : ∃ l', l = l' + 1 := ⟨l - 1, by omega⟩
    rw [hshift l']
    cases k with
    | zero =>
      show (ar i).bits + ((sz / 2^0 - 1) / 8 + 1) ≤ _
      rw [hbits, pow_zero, Nat.div_one]
      exact hrest.above l' (by omega)
    | succ k =>
      rw [hshift, ← rowLen_half]
      exact hrest.apart k l' (by omega) (by omega)
  · cases k with
    | zero =>
      rw [pow_zero, Nat.div_one]
      exact hcount
    | succ k =>
      rw [hshift, ← half_div]
      exact hrest.count k (by omega)
  · cases k with
    | zero =>
      rw [pow_zero, Nat.div_one, Nat.add_zero, hbits]
      refine hbit b ?_
      rwa [rowLen, pow_zero, Nat.div_one] at hb
    | succ k =>
      rw [hshift, ← half_div]
      exact hrest.bit k (by omega) b (by rwa [rowLen_half])

end

/-- the second loop lays out the bitmaps and touches nothing below them -/
theorem bitmapLoop_spec (fuel : Nat) : ∀ (sz pb i : Nat) (ar : Nat → BuddyBitmap)
    (mem : Nat → BitVec 8), 1 ≤ sz → sz < 2^fuel →
    (bitmapLoop fuel sz pb i ar mem).1 = i + Nat.log2 sz ∧
      (∀ j < i, (bitmapLoop fuel sz pb i ar mem).2.1 j = ar j) ∧
      (∀ a < pb, (bitmapLoop fuel sz pb i ar mem).2.2 a = mem a) ∧
      Laid sz pb i (bitmapLoop fuel sz pb i ar mem).2.1 (bitmapLoop fuel sz pb i ar mem).2.2 := by
  induction fuel with
  | zero =>
    intro sz pb i ar mem h1 h2
    rw [pow_zero] at h2
    omega
  | succ fuel ih =>
    intro sz pb i ar mem h1 h2
    let pbEnd := pb + ((sz - 1) / 8 + 1)
    let ar1 := Function.update ar i ⟨pb, if sz % 2 ≠ 0 then 1 else 0⟩
    let mem1 := rowMem mem sz pb
    have har : ∀ j < i, ar1 j = ar j := fun j hj => Function.update_of_ne (by omega) _ _
    have hself : ar1 i = ⟨pb, if sz % 2 ≠ 0 then 1 else 0⟩ := Function.update_self _ _ _
    have hcount : (ar1 i).count = sz % 2 := by
      rw [hself]
      show (if sz % 2 ≠ 0 then 1 else 0) = sz % 2
      by_cases h : sz % 2 ≠ 0
      · rw [if_pos h]; omega
      · rw [if_neg h]; omega
    have hmem : ∀ a < pb, mem1 a = mem a := fun a ha => rowMem_below mem sz pb ha
    have hbit := fun b => rowMem_bit mem sz pb b h1
    rw [bitmapLoop_succ]
    by_cases hone : sz = 1
    · -- the last level
      rw [if_pos hone]
      refine ⟨?_, har, hmem, .one (congrArg BuddyBitmap.bits hself) hcount hbit hone⟩
      rw [hone, log2_one]
      rfl
    · rw [if_neg hone]
      rw [pow_succ] at h2
      obtain ⟨i1, i2, i3, i4⟩ := ih (sz/2) pbEnd (i+1) ar1 mem1 (by omega) (by omega)
      have hlog := log2_half sz (by omega)
      generalize bitmapLoop fuel (sz/2) pbEnd (i+1) ar1 mem1 = r at i1 i2 i3 i4 ⊢
      obtain ⟨n, ar2, mem2⟩ := r
      have hsame : ar2 i = ar1 i := i2 i (Nat.lt_succ_self i)
      refine ⟨by rw [i1, hlog]; omega, fun j hj => by rw [i2 j (by omega), har j hj],
        fun a ha => by rw [i3 a (by omega), hmem a ha], ?_⟩
      refine .cons (congrArg BuddyBitmap.bits (hsame.trans hself)) ((congrArg BuddyBitmap.count hsame).trans hcount)
        (fun b hb => ?_) (by omega) i4
      have hbyte : mem2 (pb + b / 8) = mem1 (pb + b / 8) := i3 _ (by omega)
      show (mem2 (pb + b / 8)).getLsbD (b % 8) = _
      rw [hbyte]
      exact hbit b hb

/-! ## the initial table -/

theorem full_all_iff {N i b : Nat} : Full {u | u < N} i b ↔ b < N / 2^i := by
  have hp := Nat.two_pow_pos i
  constructor
  · exact full_lt fun u hu => hu
  · intro h u hu
    have h1 := (mem_blk_iff.mp hu).2
    have h2 := (Nat.le_div_iff_mul_le hp).mp (Nat.succ_le_of_lt h)
    exact lt_of_lt_of_le h1 h2

/-- the maximal blocks of all the unit blocks are the last ones of the levels with an odd number -/
theorem maxi_all_iff {N i b : Nat} :
    Maxi {u | u < N} i b ↔ N / 2^i % 2 = 1 ∧ b + 1 = N / 2^i := by
  rw [Maxi, full_all_iff, full_all_iff, div_pow_succ]
  omega

/-- the memory that the unit blocks lie in -/
structure Geometry (g : DynMemStruct) (N : Nat) : Prop where
  count : g.countOfUnitBlock = N
  pos : 1 ≤ N
  aligned : g.beginAddr % 4096 = 0
  beginPos : 0 < g.beginAddr
  inside : g.beginAddr + (N - 1) * 4096 < dynMemoryStartAddress + g.dynMemSize
  fits : dynMemoryStartAddress + g.dynMemSize ≤ iomapMemoryStartAddress

theorem Geometry.frame {g g' : DynMemStruct} {N : Nat} (h : Geometry g N) (hf : Frame g g') :
    Geometry g' N :=
  ⟨hf.countOfUnitBlock.trans h.count, h.pos, hf.beginAddr ▸ h.aligned, hf.beginAddr ▸ h.beginPos,
    hf.beginAddr ▸ hf.dynMemSize ▸ h.inside, hf.dynMemSize ▸ h.fits⟩

/-- a bitmap with a mark on its last block if the number of blocks is odd, and no other -/
theorem leftover_row {g : DynMemStruct} {N i : Nat} (h : ∀ b < 8 * rowLen N i,
    g.bit i b = decide (N / 2^i % 2 = 1 ∧ b + 1 = N / 2^i)) : (g.row N i).card = N / 2^i % 2 := by
  have hmem : ∀ b, b ∈ g.row N i ↔ N / 2^i % 2 = 1 ∧ b + 1 = N / 2^i := by
    intro b
    rw [DynMemStruct.row, Finset.mem_filter, Finset.mem_range]
    constructor
    · rintro ⟨h1, h2⟩
      rwa [h b (lt_rowLen h1), decide_eq_true_eq] at h2
    · rintro ⟨h1, h2⟩
      have h3 : b < N / 2^i := by omega
      exact ⟨h3, by rw [h b (lt_rowLen h3), decide_eq_true_eq]; exact ⟨h1, h2⟩⟩
  generalize N / 2^i = n at hmem
  by_cases hodd : n % 2 = 1
  · have hrow : g.row N i = {n - 1} := by
      ext b
      rw [hmem, Finset.mem_singleton]
      omega
    rw [hrow, Finset.card_singleton, hodd]
  · have hrow : g.row N i = ∅ := Finset.eq_empty_of_forall_notMem fun b hb => hodd ((hmem b).mp hb).1
    rw [hrow, Finset.card_empty]
    omega

theorem ckDynMemInitialize_eq (mem : Nat → BitVec 8) {dynMemSize pb m beginAddr N : Nat}
    (hm : metadataLoop 32 (sub32 dynMemSize 1 / dynMemBuddyUnitSize + 1) dynMemoryMetadataAddr
      dynMemoryStartAddress = (pb, m))
    (hb : ceilUint32 m dynMemBuddyUnitSize = beginAddr)
    (hN : sub32 (sub32 dynMemSize (sub32 beginAddr dynMemoryStartAddress)) 1 / dynMemBuddyUnitSize + 1
      = N) :
    ckDynMemInitialize mem dynMemSize =
      let r := bitmapLoop 32 N pb 0 (fun _ => ⟨0, 0⟩) mem
      ⟨dynMemSize, beginAddr, 0, N, r.1 + 1, r.2.1, r.2.2, []⟩ := by
  subst hN hb
  unfold ckDynMemInitialize
  simp only [hm]

/-- **The layout**: the metadata of all the memory is reserved, and the blocks are what is left. -/
theorem initialize_layout (mem : Nat → BitVec 8) {dynMemSize : Nat}
    (h1 : dynMemBuddyUnitSize < dynMemSize)
    (h2 : dynMemSize ≤ iomapMemoryStartAddress - dynMemoryStartAddress) :
    ∃ beginAddr N, dynMemoryStartAddress + metadataBytes ((dynMemSize - 1) / 4096 + 1) ≤ beginAddr ∧
      beginAddr % 4096 = 0 ∧ beginAddr < dynMemoryStartAddress + dynMemSize ∧
      N = (dynMemoryStartAddress + dynMemSize - beginAddr - 1) / 4096 + 1 ∧
      ckDynMemInitialize mem dynMemSize =
        let r := bitmapLoop 32 N
          (dynMemoryMetadataAddr + 8 * (Nat.log2 ((dynMemSize - 1) / 4096 + 1) + 1)) 0 (fun _ => ⟨0, 0⟩) mem
        ⟨dynMemSize, beginAddr, 0, N, r.1 + 1, r.2.1, r.2.2, []⟩ := by
  have hunit : dynMemBuddyUnitSize = 4096 := rfl
  have hstart : dynMemoryStartAddress = 0x00100000 := rfl
  have hiomap : iomapMemoryStartAddress = 0xbf800000 := rfl
  rw [hunit] at h1
  rw [hiomap, hstart] at h2
  have hsz : sub32 dynMemSize 1 / dynMemBuddyUnitSize + 1 = (dynMemSize - 1) / 4096 + 1 := by
    rw [hunit, sub32_of_le (by omega) (by omega)]
  have hle := metadataBytes_le ((dynMemSize - 1) / 4096 + 1) (by omega)
  have hm : metadataLoop 32 (sub32 dynMemSize 1 / dynMemBuddyUnitSize + 1) dynMemoryMetadataAddr
      dynMemoryStartAddress = (dynMemoryMetadataAddr + 8 * (Nat.log2 ((dynMemSize - 1) / 4096 + 1) + 1),
        dynMemoryStartAddress + metadataBytes ((dynMemSize - 1) / 4096 + 1)) := by
    rw [hsz]
    exact metadataLoop_spec 32 _ _ _ (by omega) (by omega) (by rw [hstart]; omega)
  generalize metadataBytes ((dynMemSize - 1) / 4096 + 1) = bytes at hle hm ⊢
  have hlt := ceil_metadata_lt h1 (Nat.add_le_add_left hle 0x00100000)
  rw [hstart]
  have hb : ceilUint32 (dynMemoryStartAddress + bytes) dynMemBuddyUnitSize = (0x00100000 + bytes + 4095) / 4096 * 4096 := by
    rw [hstart]
    show u32 (0x00100000 + bytes + 4096 - 1) / 4096 * 4096 = _
    rw [u32_of_lt (by omega)]
    rfl
  have hlow : 0x00100000 + bytes ≤ (0x00100000 + bytes + 4095) / 4096 * 4096 ∧
      (0x00100000 + bytes + 4095) / 4096 * 4096 % 4096 = 0 := by omega
  generalize (0x00100000 + bytes + 4095) / 4096 * 4096 = beginAddr at hlt hlow hb
  have hN : sub32 (sub32 dynMemSize (sub32 beginAddr dynMemoryStartAddress)) 1 / dynMemBuddyUnitSize + 1
      = (0x00100000 + dynMemSize - beginAddr - 1) / 4096 + 1 := by
    have e1 : sub32 beginAddr 0x00100000 = beginAddr - 0x00100000 :=
      sub32_of_le (by omega) (by omega)
    have e2 : sub32 dynMemSize (beginAddr - 0x00100000) = 0x00100000 + dynMemSize - beginAddr := by
      rw [sub32_of_le (by omega) (by omega)]
      omega
    rw [hstart, hunit, e1, e2, sub32_of_le (by omega) (by omega)]
  exact ⟨beginAddr, _, hlow.1, hlow.2, hlt, rfl, ckDynMemInitialize_eq mem hm hb hN⟩

/-- the bitmaps laid out hold the maximal blocks of all the unit blocks -/
theorem Laid.tab {g : DynMemStruct} {N pb : Nat} (h : Laid N pb 0 g.arBitmap g.mem) (hlt : N < 2^32)
    (hlev : g.bitmapLevel = Nat.log2 N + 1) : Tab g N (Maxi {u | u < N}) := by
  have hzero : ∀ i, 0 + i = i := Nat.zero_add
  have hbit : ∀ i < g.bitmapLevel, ∀ b < 8 * rowLen N i,
      g.bit i b = decide (N / 2^i % 2 = 1 ∧ b + 1 = N / 2^i) := by
    intro i hi b hb
    have h3 := h.bit i (by omega) b hb
    rw [hzero i] at h3
    exact h3
  refine ⟨hlt, hlev, ?_, fun i b hb => full_all_iff.mp hb.1, ?_, ?_⟩
  · intro i j hij hj
    have h3 := h.apart i j hij (by omega)
    rwa [hzero i, hzero j] at h3
  · intro i hi b hb
    rw [hbit i hi b hb, maxi_all_iff, decide_eq_true_eq]
  · intro i hi
    have h3 := h.count i (by omega)
    rw [hzero i] at h3
    rw [h3, leftover_row (hbit i hi)]

/-- **The state after initialization**, for every memory size that is more than one unit block and
ends below the area of the I/O mapping. -/
theorem initialize_spec (mem : Nat → BitVec 8) {dynMemSize : Nat}
    (h1 : dynMemBuddyUnitSize < dynMemSize)
    (h2 : dynMemSize ≤ iomapMemoryStartAddress - dynMemoryStartAddress) :
    ∃ N, Geometry (ckDynMemInitialize mem dynMemSize) N ∧
      Tab (ckDynMemInitialize mem dynMemSize) N (Maxi {u | u < N}) ∧
      (ckDynMemInitialize mem dynMemSize).usedSize = 0 := by
  obtain ⟨beginAddr, N, hlow, haligned, hlt, hN, e⟩ := initialize_layout mem h1 h2
  have hstart : dynMemoryStartAddress = 0x00100000 := rfl
  have hiomap : iomapMemoryStartAddress = 0xbf800000 := rfl
  have hunit : dynMemBuddyUnitSize = 4096 := rfl
  rw [hunit] at h1
  rw [hiomap, hstart] at h2
  rw [hstart] at hlow hlt hN
  rw [e]
  obtain ⟨b1, _, _, b4⟩ := bitmapLoop_spec 32 N _ 0 (fun _ => ⟨0, 0⟩) mem (by omega) (by omega)
  refine ⟨N, ⟨rfl, by omega, haligned, by show 0 < beginAddr; omega, ?_, ?_⟩,
    Laid.tab b4 (by omega) ?_, rfl⟩
  · show beginAddr + (N - 1) * 4096 < dynMemoryStartAddress + dynMemSize
    rw [hstart]
    omega
  · show dynMemoryStartAddress + dynMemSize ≤ _
    rw [hstart, hiomap]
    omega
  · show _ + 1 = _
    rw [b1, Nat.zero_add]

end Clubcos
