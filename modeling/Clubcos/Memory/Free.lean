import Clubcos.Memory.Alloc

/-!
# What a release does to the table of free blocks

`mergeLoop_spec`: the joining loop, started at a block `b` of level `k` that was put back into the
table of `F`, ends with the table of `F ∪ blk k b`.  The loop invariant is the table `Pend F i c` of
`Clubcos.Lib.Dyadic`: the joined block `c` of level `i`, and the old maximal blocks outside it.
`free_spec` is the whole call.
-/

set_option linter.unusedVariables false

namespace Clubcos
open Word Dyadic

theorem sub32_two {c : Nat} (h : c < 2^32) : sub32 (sub32 c 1) 1 = sub32 c 2 := by
  show ((c + (2^32 - 1)) % 2^32 + (2^32 - 1)) % 2^32 = (c + (2^32 - 2)) % 2^32
  omega

theorem set0_setCount (g : DynMemStruct) (i n j b : Nat) :
    bitmapBitSet0 (g.setCount i n) j b = (bitmapBitSet0 g j b).setCount i n := by
  have e : (g.setCount i n).bitAddr j b = g.bitAddr j b := by
    show ((g.setCount i n).arBitmap j).bits + b / 8 = _
    rw [(frame_setCount g i n).bits]
    rfl
  show ((g.setCount i n).setMem ((g.setCount i n).bitAddr j b) _).touch j b = _
  rw [e]
  rfl

theorem setCount_setCount (g : DynMemStruct) (i n m : Nat) :
    (g.setCount i n).setCount i m = g.setCount i m := by
  simp only [DynMemStruct.setCount, Function.update_idem, Function.update_self]

/-- the two bits of a pair of buddies are cleared one by one and discounted together -/
theorem join_eq (g : DynMemStruct) (i b : Nat) (h : (g.arBitmap i).count < 2^32) :
    g.join i b = (g.unmark i (b ^^^ 1)).unmark i b := by
  rw [DynMemStruct.unmark, DynMemStruct.unmark, count_setCount, if_pos rfl, set0_setCount,
    setCount_setCount, sub32_two h, DynMemStruct.join]

section
variable {F : Set Nat} {N k b : Nat} (hF : ∀ u ∈ F, u < N) (hb : b < N / 2^k)
  (hdis : ∀ u ∈ blk k b, u ∉ F)
include hF hb

theorem union_lt : ∀ u ∈ F ∪ blk k b, u < N := by
  rintro u (hu | hu)
  · exact hF u hu
  · have h1 := (mem_blk_iff.mp hu).2
    have h2 := (Nat.le_div_iff_mul_le (Nat.two_pow_pos k)).mp (Nat.succ_le_of_lt hb)
    exact lt_of_lt_of_le h1 h2

include hdis

/-- **The joining loop** turns the table with the block put back into the table of maximal blocks. -/
theorem mergeLoop_spec (n : Nat) : ∀ (g : DynMemStruct) (i c : Nat), i + n = g.bitmapLevel → k ≤ i →
    blk k b ⊆ blk i c → Full (F ∪ blk k b) i c → Tab g N (Pend F i c) →
    Frame g (mergeLoop n i c g) ∧ Tab (mergeLoop n i c g) N (Maxi (F ∪ blk k b)) := by
  induction n with
  | zero =>
    intro g i c hn _ _ hfull htab
    have h1 := full_level_lt (union_lt hF hb) hfull
    rw [htab.level] at hn
    omega
  | succ n ih =>
    intro g i c hn hki hsub hfull htab
    have hlev : i < g.bitmapLevel := by omega
    have hv := hsub (first_mem k b)
    have hvF := hdis _ (first_mem k b)
    have hc : c < N / 2^i := full_lt (union_lt hF hb) hfull
    have hbit : bitmapGetBit g i (c ^^^ 1) = true ↔ Maxi F i (c ^^^ 1) := by
      rw [bitmapGetBit_eq, htab.bit_iff i hlev _ (buddy_lt_rowLen hc)]
      constructor
      · rintro (⟨h, _⟩ | ⟨_, h⟩)
        · exact h
        · exact absurd h (buddy_ne c)
      · exact fun h => Or.inl ⟨h, fun hs => buddy_ne c (blk_inj hs)⟩
    have hout : ∀ u ∈ F ∪ blk k b, u ∉ F → u ∈ blk i c := by
      rintro u (hu | hu) hn
      · exact absurd hu hn
      · exact hsub hu
    by_cases hbud : Maxi F i (c ^^^ 1)
    · have hpar : Full (F ∪ blk k b) (i+1) (c/2) :=
        full_succ hfull (hbud.1.mono Set.subset_union_left)
      have hup : i + 1 < g.bitmapLevel := by
        rw [htab.level]
        exact full_level_lt (union_lt hF hb) hpar
      have h1 := htab.unmark hlev (Or.inl ⟨hbud, fun hs => buddy_ne c (blk_inj hs)⟩)
      have h2 := h1.unmark (a := c) hlev ⟨Or.inr ⟨rfl, rfl⟩, fun h => buddy_ne c h.2.symm⟩
      have hfr := (frame_unmark g i (c ^^^ 1)).trans (frame_unmark _ i c)
      have h3 := h2.mark (i := i+1) (a := c/2) (by rw [hfr.bitmapLevel]; exact hup)
        (full_lt (union_lt hF hb) hpar) (by
          rintro ⟨⟨⟨hM, _⟩ | ⟨h, _⟩, _⟩, _⟩
          · exact hvF (hM.1 (blk_sub_succ i c hv))
          · omega)
      have hfr' := hfr.trans (frame_mark _ (i+1) (c/2))
      have e : mergeLoop (n+1) i c g
          = mergeLoop n (i+1) (c/2) (((g.unmark i (c ^^^ 1)).unmark i c).mark (i+1) (c/2)) := by
        rw [mergeLoop_succ, if_pos (hbit.mpr hbud), if_neg (by omega), join_eq g i c (htab.count_lt hlev)]
      have ih' := ih _ (i+1) (c/2) (by rw [hfr'.bitmapLevel]; omega) (by omega)
        (hsub.trans (blk_sub_succ i c)) hpar (h3.congr fun i' c' => by
          rw [pend_join hv hvF hbud i' c']
          constructor
          · rintro (⟨h4, h5, h6⟩ | h4)
            · exact Or.inl ⟨⟨h4, h6⟩, h5⟩
            · exact Or.inr h4
          · rintro (⟨⟨h4, h6⟩, h5⟩ | h4)
            · exact Or.inl ⟨h4, h5, h6⟩
            · exact Or.inr h4)
      rw [e]
      exact ⟨hfr'.trans ih'.1, ih'.2⟩
    · have e : mergeLoop (n+1) i c g = g := by
        have hne : ¬ bitmapGetBit g i (c ^^^ 1) = true := fun h => hbud (hbit.mp h)
        rw [mergeLoop_succ, if_neg hne]
      rw [e]
      exact ⟨Frame.refl g, htab.congr fun i' c' =>
        pend_stop hv hvF Set.subset_union_left hout hfull hbud i' c'⟩

/-- **A release** of a block outside the free set: the assertion holds, the call succeeds and the
table becomes the one of the larger set. -/
theorem free_spec {g : DynMemStruct} {size : Nat} (h : Tab g N (Maxi F)) (h0 : 1 ≤ size)
    (hsize : size ≤ 2^31) (hk : sizeLevel size = k) (hbeg : g.beginAddr % 4096 = 0)
    (htop : g.beginAddr + b * (4096 * 2^k) < 2^32)
    (hend : g.beginAddr + b * (4096 * 2^k) ≤ u32 (dynMemoryStartAddress + g.dynMemSize)) :
    ∃ g', Frame g g' ∧ Tab g' N (Maxi (F ∪ blk k b)) ∧
      ckDynMemFree g (g.beginAddr + b * (4096 * 2^k)) size
        = some (true, g'.setUsed (sub32 g.usedSize ((size + 4095) / 4096 * 4096))) := by
  have hk20 : k < 20 := hk ▸ sizeLevel_lt hsize
  have hfullb : Full (F ∪ blk k b) k b := Set.subset_union_right
  have hlev : k < g.bitmapLevel := by
    rw [h.level]
    exact full_level_lt (union_lt hF hb) hfullb
  have hnot : ¬ Maxi F k b := fun hM => hdis _ (first_mem k b) (hM.1 (first_mem k b))
  have hmark := (h.mark hlev hb hnot).congr fun i' c' => pend_start hdis i' c'
  have hfr := frame_mark g k b
  have hmerge := mergeLoop_spec hF hb hdis (g.bitmapLevel - k) (g.mark k b) k b
    (by rw [hfr.bitmapLevel]; omega) (Nat.le_refl k) (Set.Subset.refl _) hfullb hmark
  -- the address is that of the block `b`
  have hround : (g.beginAddr + b * (4096 * 2^k)) / 4096 * 4096 = g.beginAddr + b * (4096 * 2^k) := by
    have e : b * (4096 * 2^k) = 4096 * (b * 2^k) := by ring
    omega
  have hrel : sub32 (g.beginAddr + b * (4096 * 2^k)) g.beginAddr = b * (4096 * 2^k) := by
    rw [sub32_of_le (Nat.le_add_right _ _) htop, Nat.add_sub_cancel_left]
  have hblock : b * (4096 * 2^k) / (4096 * 2^k) = b :=
    Nat.mul_div_cancel b (Nat.mul_pos (by omega) (Nat.two_pow_pos k))
  have hbit : ¬ bitmapGetBit g k b = true := by
    rw [bitmapGetBit_eq, h.bit_iff k hlev b (lt_rowLen hb)]
    exact hnot
  refine ⟨_, hfr.trans hmerge.1, hmerge.2, ?_⟩
  have e : ckDynMemFree g (g.beginAddr + b * (4096 * 2^k)) size =
      if bitmapGetBit g k (sub32 ((g.beginAddr + b * (4096 * 2^k)) / 4096 * 4096) g.beginAddr
          / u32 (dynMemBuddyUnitSize <<< k)) = true then none
      else
        let block := sub32 ((g.beginAddr + b * (4096 * 2^k)) / 4096 * 4096) g.beginAddr
          / u32 (dynMemBuddyUnitSize <<< k)
        let g1 := mergeLoop ((g.mark k block).bitmapLevel - k) k block (g.mark k block)
        some (true, g1.setUsed (sub32 g1.usedSize (ceilUint32 size dynMemBuddyUnitSize))) := by
    unfold ckDynMemFree
    rw [if_neg (by omega), if_neg (by omega)]
    simp only [bitmapIdx_eq h0 hsize, hk]
    rw [if_neg (by omega)]
    rfl
  rw [e, hround, hrel, unit_shl hk20, hblock, if_neg hbit, ceilUint32_eq h0 hsize]
  show some (true, (mergeLoop ((g.mark k b).bitmapLevel - k) k b (g.mark k b)).setUsed
    (sub32 (mergeLoop ((g.mark k b).bitmapLevel - k) k b (g.mark k b)).usedSize _)) = _
  rw [hfr.bitmapLevel, (hfr.trans hmerge.1).usedSize]

end

end Clubcos
