import Mathlib.Algebra.Order.BigOperators.Group.Finset
import Mathlib.Data.Nat.Log
import Clubcos.Memory.Buddy

/-!
# The metadata that `ckDynMemInitialize` lays out

The first loop counts the levels of all the memory, the second one those of what is left of it: the second
one has no more levels and no longer bitmaps, so it stays in the space that the first one reserves.

* `bitmapLoop_bits`         where each bitmap starts;
* `metadataBytes_window`    the metadata of any memory fits into the pages mapped for it;
* `initialize_consistent`   **the layout**, for every memory size that is found.
-/

namespace Clubcos
open Word Dyadic

/-- the number of pages that boot.asm maps at `DYN_MEMORY_METADATA_ADDR` -/
def metadataPages : Nat := 0x100000 - 0xfffcf

/-! ## where the bitmaps lie -/

/-- the second loop lays the bitmaps out one right behind the other -/
theorem bitmapLoop_bits (fuel : Nat) : ∀ (sz pb i : Nat) (ar : Nat → BuddyBitmap) (mem : Nat → BitVec 8),
    1 ≤ sz → sz < 2^fuel → ∀ k ≤ Nat.log2 sz,
    ((bitmapLoop fuel sz pb i ar mem).2.1 (i+k)).bits = pb + ∑ l ∈ Finset.range k, rowLen sz l := by
  induction fuel with
  | zero =>
    intro sz pb i ar mem h1 h2
    rw [pow_zero] at h2
    omega
  | succ fuel ih =>
    intro sz pb i ar mem h1 h2 k hk
    let pbEnd := pb + ((sz - 1) / 8 + 1)
    let ar1 := Function.update ar i ⟨pb, if sz % 2 ≠ 0 then 1 else 0⟩
    let mem1 := rowMem mem sz pb
    have hself : (ar1 i).bits = pb := by
      show (Function.update ar i _ i).bits = pb
      rw [Function.update_self]
    rw [bitmapLoop_succ]
    by_cases hone : sz = 1
    · rw [hone, log2_one] at hk
      rw [if_pos hone, Nat.le_zero.mp hk]
      exact hself
    · rw [pow_succ] at h2
      rw [if_neg hone]
      have hfront := (bitmapLoop_spec fuel (sz/2) pbEnd (i+1) ar1 mem1 (by omega) (by omega)).2.1
      cases k with
      | zero =>
        rw [Nat.add_zero i, hfront i (Nat.lt_succ_self i), hself]
        rfl
      | succ k =>
        rw [log2_half sz (by omega)] at hk
        have hnext := ih (sz/2) pbEnd (i+1) ar1 mem1 (by omega) (by omega) k (by omega)
        have hrows : ∑ l ∈ Finset.range k, rowLen (sz/2) l = ∑ l ∈ Finset.range k, rowLen sz (l+1) :=
          Finset.sum_congr rfl fun l _ => rowLen_half sz l
        rw [show i + (k+1) = i + 1 + k by omega, hnext, hrows, Finset.sum_range_succ', rowLen_zero]
        omega

theorem rowLen_mono {N M : Nat} (h : N ≤ M) (k : Nat) : rowLen N k ≤ rowLen M k := by
  have := Nat.div_le_div_right (c := 2^k) h
  unfold rowLen
  omega

theorem metadataBytes_eq (sz : Nat) :
    metadataBytes sz = 8 * (Nat.log2 sz + 1) + ∑ k ∈ Finset.range (Nat.log2 sz + 1), rowLen sz k := by
  rw [metadataBytes, Finset.sum_add_distrib, Finset.sum_const, Finset.card_range, Nat.mul_comm]
  rfl

/-- the rows of fewer blocks, up to the end of any of them, and the array of more -/
theorem metadata_le {N M : Nat} (h : N ≤ M) (hN : 1 ≤ N) {k : Nat} (hk : k ≤ Nat.log2 N) :
    8 * (Nat.log2 M + 1) + ∑ l ∈ Finset.range k, rowLen N l + rowLen N k ≤ metadataBytes M := by
  have hlog : Nat.log2 N ≤ Nat.log2 M := by
    rw [Nat.le_log2 (by omega)]
    exact le_trans (Nat.log2_self_le (by omega)) h
  have h1 : ∑ l ∈ Finset.range (k+1), rowLen N l ≤ ∑ l ∈ Finset.range (k+1), rowLen M l :=
    Finset.sum_le_sum fun l _ => rowLen_mono h l
  have h2 : ∑ l ∈ Finset.range (k+1), rowLen M l ≤ ∑ l ∈ Finset.range (Nat.log2 M + 1), rowLen M l :=
    Finset.sum_le_sum_of_subset (Finset.range_mono (by omega))
  rw [Finset.sum_range_succ] at h1
  rw [metadataBytes_eq]
  omega

/-- four bytes of metadata for each block and 36 for each level are more than enough for four of these -/
theorem metadataBytes_quarter (sz : Nat) (h : 1 ≤ sz) :
    4 * metadataBytes sz ≤ sz + 36 * (Nat.log2 sz + 1) := by
  induction sz using Nat.strong_induction_on with
  | _ sz ih =>
    by_cases hone : sz = 1
    · rw [hone, metadataBytes_one, log2_one]
      omega
    · have h1 := ih (sz / 2) (by omega) (by omega)
      rw [metadataBytes_half (by omega), log2_half sz (by omega)]
      omega

/-- **The window**: the metadata of as many blocks as there can be fits into the pages mapped for it. -/
theorem metadataBytes_window {sz : Nat} (h : 1 ≤ sz) (hsz : sz ≤ 0xbf700) :
    metadataBytes sz ≤ metadataPages * 4096 := by
  have h1 := metadataBytes_quarter sz h
  have h2 : Nat.log2 sz < 20 := (Nat.log2_lt (by omega)).mpr (by omega)
  show _ ≤ (0x100000 - 0xfffcf) * 4096
  omega

/-- the blocks lie between the metadata and the end of the memory -/
theorem initialize_region (mem : Nat → BitVec 8) {dynMemSize : Nat} (hmb : 2^20 ∣ dynMemSize)
    (h1 : dynMemBuddyUnitSize < dynMemSize) (h2 : dynMemSize ≤ iomapMemoryStartAddress - dynMemoryStartAddress) :
    dynMemoryStartAddress < (ckDynMemInitialize mem dynMemSize).beginAddr ∧
    (ckDynMemInitialize mem dynMemSize).beginAddr + (ckDynMemInitialize mem dynMemSize).countOfUnitBlock * 4096 =
      dynMemoryStartAddress + (ckDynMemInitialize mem dynMemSize).dynMemSize := by
  obtain ⟨beginAddr, N, hlow, haligned, hlt, hN, e⟩ := initialize_layout mem h1 h2
  have hstart : dynMemoryStartAddress = 0x00100000 := rfl
  rw [metadataBytes_eq] at hlow
  obtain ⟨n, rfl⟩ := hmb
  rw [e]
  show _ < beginAddr ∧ beginAddr + N * 4096 = _ + 2^20 * n
  rw [hstart] at hlt hN hlow ⊢
  omega

/-- the bitmaps lie behind the place where the metadata starts -/
theorem initialize_bits (mem : Nat → BitVec 8) {dynMemSize : Nat} (h1 : dynMemBuddyUnitSize < dynMemSize)
    (h2 : dynMemSize ≤ iomapMemoryStartAddress - dynMemoryStartAddress) :
    ∀ i < (ckDynMemInitialize mem dynMemSize).bitmapLevel,
      dynMemoryMetadataAddr ≤ ((ckDynMemInitialize mem dynMemSize).arBitmap i).bits := by
  have hlevel := (inv_init mem h1 h2).table.level
  obtain ⟨beginAddr, N, _, _, hlt, hN, e⟩ := initialize_layout mem h1 h2
  have hiomap : iomapMemoryStartAddress = 0xbf800000 := rfl
  have hstart : dynMemoryStartAddress = 0x00100000 := rfl
  rw [hiomap, hstart] at h2
  intro i hi
  have hcount : (ckDynMemInitialize mem dynMemSize).countOfUnitBlock = N := by rw [e]
  rw [hlevel, hcount] at hi
  have hbits := bitmapLoop_bits 32 N (dynMemoryMetadataAddr + 8 * (Nat.log2 ((dynMemSize - 1) / 4096 + 1) + 1)) 0
    (fun _ => ⟨0, 0⟩) mem (by omega) (by omega) i (Nat.le_of_lt_succ hi)
  rw [Nat.zero_add] at hbits
  rw [e]
  show _ ≤ ((bitmapLoop 32 N _ 0 (fun _ => ⟨0, 0⟩) mem).2.1 i).bits
  rw [hbits, Nat.add_assoc]
  exact Nat.le_add_right _ _

/-! ## the whole layout -/

/-- the metadata, the blocks and the marks fit together -/
structure Consistent (g : DynMemStruct) : Prop where
  /-- the array of `BuddyBitmap`s ends before the first bitmap -/
  array : ∀ i < g.bitmapLevel, dynMemoryMetadataAddr + sizeofBuddyBitmap * g.bitmapLevel ≤ (g.arBitmap i).bits
  /-- the bitmaps lie one behind the other -/
  apart : ∀ i j, i < j → j < g.bitmapLevel →
    (g.arBitmap i).bits + rowLen g.countOfUnitBlock i ≤ (g.arBitmap j).bits
  /-- they end in the space that is reserved -/
  reserved : ∀ i < g.bitmapLevel, (g.arBitmap i).bits + rowLen g.countOfUnitBlock i ≤
    dynMemoryMetadataAddr + (g.beginAddr - dynMemoryStartAddress)
  /-- they end in the pages that are mapped -/
  window : ∀ i < g.bitmapLevel, (g.arBitmap i).bits + rowLen g.countOfUnitBlock i ≤
    dynMemoryMetadataAddr + metadataPages * 4096
  blocks : g.beginAddr + g.countOfUnitBlock * 4096 = dynMemoryStartAddress + g.dynMemSize
  level : g.bitmapLevel = Nat.log2 g.countOfUnitBlock + 1
  /-- a level with an odd number of blocks has its last one marked, and no level has another mark -/
  marked : ∀ i c, Marked g i c ↔ g.countOfUnitBlock / 2^i % 2 = 1 ∧ c + 1 = g.countOfUnitBlock / 2^i
  marked_inside : ∀ i c, Marked g i c → ∀ u ∈ blk i c, u < g.countOfUnitBlock
  /-- every unit block is in exactly one marked block -/
  cover : ∀ u < g.countOfUnitBlock, ∃! p : Nat × Nat, Marked g p.1 p.2 ∧ u ∈ blk p.1 p.2

/-- the marks after the initialization -/
theorem marked_init {g : DynMemStruct} (h : Inv g []) (i c : Nat) :
    Marked g i c ↔ Maxi {u | u < g.countOfUnitBlock} i c := by
  have hfree : freeUnits g [] = {u | u < g.countOfUnitBlock} := by
    ext u
    exact ⟨fun hu => hu.1, fun hu => ⟨hu, List.forall_mem_nil _⟩⟩
  rw [h.marked_iff, hfree]

theorem marked_cover {g : DynMemStruct} (h : Inv g []) {u : Nat} (hu : u < g.countOfUnitBlock) :
    ∃! p : Nat × Nat, Marked g p.1 p.2 ∧ u ∈ blk p.1 p.2 := by
  have hmarked := marked_init h
  obtain ⟨j, b, hb, hm⟩ := exists_maxi_mem (F := {u | u < g.countOfUnitBlock}) (fun _ h => h) hu
  refine ⟨(j, b), ⟨(hmarked j b).mpr hm, hb⟩, ?_⟩
  rintro ⟨j', b'⟩ ⟨hm', hb'⟩
  obtain ⟨rfl, rfl⟩ := maxi_unique ((hmarked j' b').mp hm') hm hb' hb
  rfl

/-- **The layout is consistent**, whatever memory is found. -/
theorem initialize_consistent (mem : Nat → BitVec 8) {dynMemSize : Nat} (hmb : 2^20 ∣ dynMemSize)
    (h1 : 23 * 2^20 ≤ dynMemSize) (h2 : dynMemSize ≤ iomapMemoryStartAddress - dynMemoryStartAddress) :
    Consistent (ckDynMemInitialize mem dynMemSize) := by
  have hunit : dynMemBuddyUnitSize < dynMemSize := lt_of_lt_of_le (by decide) h1
  have hi := inv_init mem hunit h2
  have hstart : dynMemoryStartAddress = 0x00100000 := rfl
  have hiomap : iomapMemoryStartAddress = 0xbf800000 := rfl
  obtain ⟨beginAddr, N, hlow, haligned, hlt, hN, e⟩ := initialize_layout mem hunit h2
  rw [hiomap, hstart] at h2
  obtain ⟨n, rfl⟩ := hmb
  -- the memory is whole pages, and so is what is left of it
  have hpages : (2^20 * n - 1) / 4096 + 1 = 256 * n := by omega
  rw [hpages] at hlow e
  have hcount : (ckDynMemInitialize mem (2^20 * n)).countOfUnitBlock = N := by rw [e]
  have hbegin : (ckDynMemInitialize mem (2^20 * n)).beginAddr = beginAddr := by rw [e]
  have hsize : (ckDynMemInitialize mem (2^20 * n)).dynMemSize = 2^20 * n := by rw [e]
  have hlevel := hi.table.level
  have hpos : 1 ≤ N := by omega
  have hle : N ≤ 256 * n := by
    rw [hstart] at hN hlow
    omega
  have hlog : Nat.log2 N ≤ Nat.log2 (256 * n) := by
    rw [Nat.le_log2 (by omega)]
    exact le_trans (Nat.log2_self_le (by omega)) hle
  have hbits : ∀ k ≤ Nat.log2 N, ((ckDynMemInitialize mem (2^20 * n)).arBitmap k).bits =
      dynMemoryMetadataAddr + 8 * (Nat.log2 (256 * n) + 1) + ∑ l ∈ Finset.range k, rowLen N l := by
    intro k hk
    rw [e]
    have := bitmapLoop_bits 32 N (dynMemoryMetadataAddr + 8 * (Nat.log2 (256 * n) + 1)) 0
      (fun _ => ⟨0, 0⟩) mem hpos (by omega) k hk
    rwa [Nat.zero_add] at this
  have hends : ∀ k ≤ Nat.log2 N, ((ckDynMemInitialize mem (2^20 * n)).arBitmap k).bits + rowLen N k ≤
      dynMemoryMetadataAddr + metadataBytes (256 * n) := by
    intro k hk
    have := metadata_le hle hpos hk
    rw [hbits k hk]
    omega
  have hwindow := metadataBytes_window (show 1 ≤ 256 * n by omega) (by omega)
  have hmarked := marked_init hi
  exact {
    array := fun i hk => by
      rw [hlevel, hcount] at hk ⊢
      rw [hbits i (by omega)]
      show _ + 8 * _ ≤ _
      omega
    apart := hi.table.rows
    reserved := fun i hk => by
      rw [hlevel, hcount] at hk
      have := hends i (by omega)
      rw [hcount, hbegin]
      omega
    window := fun i hk => by
      rw [hlevel, hcount] at hk
      rw [hcount]
      exact le_trans (hends i (by omega)) (Nat.add_le_add_left hwindow _)
    blocks := by
      rw [hcount, hbegin, hsize]
      rw [hstart] at hlt hN hlow ⊢
      omega
    level := hlevel
    marked := fun i c => by rw [hmarked, maxi_all_iff]
    marked_inside := fun i c hm => (hmarked i c).mp hm |>.1
    cover := fun u hu => marked_cover hi hu
  }

theorem initialize_consistent_first : Consistent (ckDynMemInitialize (fun _ => 0#8) (23 * 2^20)) :=
  initialize_consistent (fun _ => 0#8) ⟨23, rfl⟩ (by decide) (by decide)

end Clubcos
