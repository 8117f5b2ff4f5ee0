import Clubcos.Memory.Request

/-!
# The bits that calls set and clear

A bit behind the last block of a level lies in the bitmap of the next level, or in the padding in front of it.  The
allocator stays away from it as long as it has not been told to release a block that reaches out of the heap, and as long
as a count that is not zero stands for a bit that is set (a block that is released twice can break this).

* `Trimmed`        the bits touched so far are those of blocks of the heap, and the padding is zero;
* `Trimmed.mergeLoop`, `Trimmed.splitLoop`   the loops keep to the blocks of the heap;
* `InsideCalls`    runs with the two conditions; `Run.insideCalls`: matched calls are such runs;
* `rejects_iff`    **which blocks outside the heap are rejected**, and that no call of such a run touches a bit outside.
-/

set_option linter.unusedVariables false

namespace Clubcos
open Word Dyadic

/-- the bitmaps lie apart, their padding is zero, and every bit touched is that of a block -/
structure Trimmed (g : DynMemStruct) : Prop where
  lt : g.countOfUnitBlock < 2^32
  rows : Rows g g.countOfUnitBlock
  padding : ∀ i < g.bitmapLevel, ∀ b < 8 * rowLen g.countOfUnitBlock i, g.bit i b = true → b < g.countOfUnitBlock / 2^i
  touched : ∀ p ∈ g.touched, p.1 < g.bitmapLevel ∧ p.2 < g.countOfUnitBlock / 2^p.1

/-! ## single bits -/

section
variable {g : DynMemStruct} (h : Trimmed g)
include h

theorem Trimmed.setCount (i n : Nat) : Trimmed (g.setCount i n) where
  lt := h.lt
  rows := h.rows.frame (frame_setCount g i n)
  padding j hj b hb hbit := by
    rw [bit_setCount] at hbit
    exact h.padding j hj b hb hbit
  touched := h.touched

theorem Trimmed.setUsed (n : Nat) : Trimmed (g.setUsed n) := ⟨h.lt, h.rows, h.padding, h.touched⟩

variable {i a : Nat} (hi : i < g.bitmapLevel) (ha : a < g.countOfUnitBlock / 2^i)
include hi ha

theorem Trimmed.set1 : Trimmed (bitmapBitSet1 g i a) where
  lt := h.lt
  rows := h.rows.frame (frame_set1 g i a)
  padding j hj b hb hbit := by
    rw [h.rows.bit_set1 hi (lt_rowLen ha) hj hb, Bool.or_eq_true, decide_eq_true_eq] at hbit
    rcases hbit with hbit | ⟨rfl, rfl⟩
    · exact h.padding j hj b hb hbit
    · exact ha
  touched p hp := by
    rcases List.mem_cons.mp hp with rfl | hp
    · exact ⟨hi, ha⟩
    · exact h.touched p hp

theorem Trimmed.set0 : Trimmed (bitmapBitSet0 g i a) where
  lt := h.lt
  rows := h.rows.frame (frame_set0 g i a)
  padding j hj b hb hbit := by
    rw [h.rows.bit_set0 hi (lt_rowLen ha) hj hb, Bool.and_eq_true] at hbit
    exact h.padding j hj b hb hbit.1
  touched p hp := by
    rcases List.mem_cons.mp hp with rfl | hp
    · exact ⟨hi, ha⟩
    · exact h.touched p hp

theorem Trimmed.mark : Trimmed (g.mark i a) := (h.set1 hi ha).setCount i _

theorem Trimmed.unmark : Trimmed (g.unmark i a) := (h.set0 hi ha).setCount i _

theorem Trimmed.join (hbud : a ^^^ 1 < g.countOfUnitBlock / 2^i) : Trimmed (g.join i a) :=
  ((h.set0 hi hbud).set0 hi ha).setCount i _

end

/-! ## the loops -/

/-- two buddies of a level are the halves of a block of the next one -/
theorem half_lt {N i b : Nat} (hb : b < N / 2^i) (hbud : b ^^^ 1 < N / 2^i) : b / 2 < N / 2^(i+1) := by
  have h1 := buddy_half b
  have h2 := buddy_ne b
  rw [pow_succ, ← Nat.div_div_eq_div_mul]
  omega

/-- the right half of a block -/
theorem right_lt {N i b : Nat} (hb : b < N / 2^(i+1)) : b * 2 + 1 < N / 2^i := by
  rw [pow_succ, ← Nat.div_div_eq_div_mul] at hb
  omega

theorem Trimmed.mergeLoop (n : Nat) : ∀ {g : DynMemStruct} {now block : Nat}, Trimmed g → now < g.bitmapLevel →
    block < g.countOfUnitBlock / 2^now → Trimmed (Clubcos.mergeLoop n now block g) := by
  induction n with
  | zero => exact fun h _ _ => h
  | succ n ih =>
    intro g now block h hnow hblock
    rw [mergeLoop_succ]
    by_cases hbud : bitmapGetBit g now (block ^^^ 1) = true
    · rw [if_pos hbud]
      by_cases htop : g.bitmapLevel ≤ now + 1
      · rw [if_pos htop]
        exact h
      · rw [if_neg htop]
        -- the buddy is marked, so it is a block and not padding
        rw [bitmapGetBit_eq] at hbud
        have hlt := h.padding now hnow _ (buddy_lt_rowLen hblock) hbud
        have hf := frame_join g now block
        have hf' := hf.trans (frame_mark _ (now + 1) (block / 2))
        have hnext : now + 1 < (g.join now block).bitmapLevel := by
          rw [hf.bitmapLevel]
          omega
        have hhalf : block / 2 < (g.join now block).countOfUnitBlock / 2^(now + 1) := by
          rw [hf.countOfUnitBlock]
          exact half_lt hblock hlt
        refine ih ((h.join hnow hblock hlt).mark hnext hhalf) ?_ ?_
        · rw [hf'.bitmapLevel]
          omega
        · rw [hf'.countOfUnitBlock]
          exact half_lt hblock hlt
    · rw [if_neg hbud]
      exact h

theorem Trimmed.splitLoop (start n : Nat) : ∀ {g : DynMemStruct} {block : Nat}, Trimmed g → start + n < g.bitmapLevel →
    block < g.countOfUnitBlock / 2^(start + n) → Trimmed (Clubcos.splitLoop start n block g).2 := by
  induction n with
  | zero => exact fun h _ _ => h
  | succ n ih =>
    intro g block h hlev hblock
    have hright : block * 2 + 1 < g.countOfUnitBlock / 2^(start + n) := right_lt hblock
    have hf := frame_mark g (start + n) (block * 2 + 1)
    rw [splitLoop_succ]
    refine ih (h.mark (by omega) hright) ?_ ?_
    · rw [hf.bitmapLevel]
      omega
    · rw [hf.countOfUnitBlock]
      omega

/-! ## the calls -/

/-- a count that is not zero stands for a bit -/
def Counted (g : DynMemStruct) : Prop :=
  ∀ i < g.bitmapLevel, (g.arBitmap i).count ≠ 0 → ∃ b < g.countOfUnitBlock / 2^i, g.bit i b = true

theorem Trimmed.takeBlock {g g' : DynMemStruct} (h : Trimmed g) {start now size addr b : Nat} (hs : start ≤ now)
    (hnow : now < g.bitmapLevel) (hb : b < g.countOfUnitBlock / 2^now) (hbit : g.bit now b = true)
    (e : Clubcos.takeBlock g start size now = some (addr, g')) : Trimmed g' := by
  obtain ⟨c, hc, hcbit, hpb, hlow⟩ := g.search h.lt (lt_rowLen hb) hbit
  have hlt := h.padding now hnow c hc hcbit
  have hblock : (g.bitAddr now c - (g.arBitmap now).bits) * 8 + c % 8 = c := by
    show ((g.arBitmap now).bits + c / 8 - (g.arBitmap now).bits) * 8 + c % 8 = c
    omega
  have hf := frame_unmark g now c
  have hsum : start + (now - start) = now := by omega
  unfold Clubcos.takeBlock at e
  simp only [hpb, hlow, hblock, Option.some_inj, Prod.mk.injEq] at e
  rw [← e.2]
  refine Trimmed.setUsed (g := (Clubcos.splitLoop start (now - start) c (g.unmark now c)).2) ?_ _
  refine (h.unmark hnow hlt).splitLoop start (now - start) ?_ ?_
  · rw [hf.bitmapLevel]
    omega
  · rw [hf.countOfUnitBlock, hsum]
    exact hlt

theorem Trimmed.allocate {g g' : DynMemStruct} (h : Trimmed g) (hc : Counted g) {size addr : Nat}
    (e : ckDynMemAllocate g size = some (addr, g')) : Trimmed g' := by
  unfold ckDynMemAllocate at e
  by_cases h0 : size = 0
  · rw [if_pos h0] at e
    cases e
    exact h
  · rw [if_neg h0] at e
    simp only [] at e
    split at e
    · cases e
    · rename_i idx hidx
      split at e
      · cases e
        exact h
      · rename_i hlev
        rcases allocLoop_spec g idx (ceilUint32 size dynMemBuddyUnitSize) (g.bitmapLevel - idx) idx with
          ⟨e', _⟩ | ⟨j, h1, h2, h3, e'⟩
        · rw [e'] at e
          cases e
          exact h
        · rw [e'] at e
          have hj : j < g.bitmapLevel := by omega
          obtain ⟨b, hb, hbit⟩ := hc j hj h3
          exact h.takeBlock h1 hj hb hbit e

/-- a block inside the heap has one of the sizes that the level loop comes to -/
theorem Inside.size_le {g : DynMemStruct} {N addr size : Nat} (hg : Geometry g N) (h : Inside g addr size) : size ≤ 2^31 := by
  have h1 := hg.inside
  have h2 := hg.fits
  have h3 := hg.count
  have hiomap : iomapMemoryStartAddress = 0xbf800000 := rfl
  by_contra hbig
  have hlev : 19 < sizeLevel size := lt_sizeLevel_iff.mpr (by omega)
  have hpow : 2^20 ≤ 2^(sizeLevel size) := Nat.pow_le_pow_right (by omega) hlev
  have h4 := h.2
  generalize (addr / 4096 * 4096 - g.beginAddr) / (4096 * 2^(sizeLevel size)) = q at h4
  have hblock : 4096 * 2^(sizeLevel size) ≤ (q + 1) * (4096 * 2^(sizeLevel size)) := Nat.le_mul_of_pos_left _ (Nat.succ_pos q)
  omega

/-- and its number is that of a block of the level -/
theorem Inside.block_lt {g : DynMemStruct} {addr size : Nat} (h : Inside g addr size) :
    (addr / 4096 * 4096 - g.beginAddr) / (4096 * 2^(sizeLevel size)) < g.countOfUnitBlock / 2^(sizeLevel size) := by
  have h2 := h.2
  generalize (addr / 4096 * 4096 - g.beginAddr) / (4096 * 2^(sizeLevel size)) = q at h2 ⊢
  have e : (q + 1) * (4096 * 2^(sizeLevel size)) = 4096 * ((q + 1) * 2^(sizeLevel size)) := by ring
  exact Nat.lt_of_succ_le ((Nat.le_div_iff_mul_le (Nat.two_pow_pos _)).mpr (by
    show (q + 1) * 2^(sizeLevel size) ≤ _
    omega))

theorem Trimmed.free {g g' : DynMemStruct} (h : Trimmed g) {N : Nat} (hg : Geometry g N) (hlev : 0 < g.bitmapLevel)
    {addr size : Nat} (hs : size < 2^32) (hin : Inside g addr size ∨ Refused g addr size) {ret : Bool}
    (e : ckDynMemFree g addr size = some (ret, g')) : Trimmed g' := by
  have hfits := hg.fits
  have hiomap : iomapMemoryStartAddress = 0xbf800000 := rfl
  have hfit : dynMemoryStartAddress + g.dynMemSize < 2^32 := by omega
  by_cases href : Refused g addr size
  · rw [(free_refused_iff hlev hfit addr hs).mpr href] at e
    cases e
    exact h
  have hin := hin.resolve_right href
  have hsize := hin.size_le hg
  obtain ⟨h0, hlow, hhigh, htop⟩ : size ≠ 0 ∧ ¬ addr < g.beginAddr ∧ ¬ dynMemoryStartAddress + g.dynMemSize < addr ∧
      ¬ g.bitmapLevel ≤ sizeLevel size := by
    unfold Refused at href
    exact ⟨fun h => href (.inl h), fun h => href (.inr (.inl h)), fun h => href (.inr (.inr (.inl h))),
      fun h => href (.inr (.inr (.inr ⟨hsize, h⟩)))⟩
  have hend : u32 (dynMemoryStartAddress + g.dynMemSize) = dynMemoryStartAddress + g.dynMemSize := u32_of_lt hfit
  have hrel : sub32 (addr / 4096 * 4096) g.beginAddr = addr / 4096 * 4096 - g.beginAddr := sub32_of_le hin.1 (by omega)
  have hunit : dynMemBuddyUnitSize = 4096 := rfl
  have hblock := hin.block_lt
  unfold ckDynMemFree at e
  rw [if_neg h0, hend, if_neg (by omega)] at e
  simp only [bitmapIdx_eq (Nat.pos_of_ne_zero h0) hsize, if_neg htop, unit_shl (sizeLevel_lt hsize)] at e
  rw [hunit, hrel] at e
  generalize (addr / 4096 * 4096 - g.beginAddr) / (4096 * 2^(sizeLevel size)) = block at hblock e
  split at e
  · cases e
  · simp only [Option.some_inj, Prod.mk.injEq] at e
    rw [← e.2]
    have hlt := Nat.lt_of_not_le htop
    have hf := frame_mark g (sizeLevel size) block
    refine Trimmed.setUsed (g := Clubcos.mergeLoop (g.bitmapLevel - sizeLevel size) (sizeLevel size) block
      (g.mark (sizeLevel size) block)) ?_ _
    exact (h.mark hlt hblock).mergeLoop _ (by rw [hf.bitmapLevel]; exact hlt) (by rw [hf.countOfUnitBlock]; exact hblock)

/-! ## runs -/

/-- any calls that come back, of which a release is for a block inside the heap or is refused, and an allocation finds the
counts right -/
inductive InsideCalls (g0 : DynMemStruct) : DynMemStruct → Prop
  | init : InsideCalls g0 g0
  | alloc {g g' size addr} : InsideCalls g0 g → Counted g → ckDynMemAllocate g size = some (addr, g') → InsideCalls g0 g'
  | free {g g' addr size ret} : InsideCalls g0 g → size < 2^32 → Inside g addr size ∨ Refused g addr size →
      ckDynMemFree g addr size = some (ret, g') → InsideCalls g0 g'

theorem InsideCalls.calls {g0 g : DynMemStruct} (h : InsideCalls g0 g) : Calls g0 g := by
  induction h with
  | init => exact .init
  | alloc _ _ e ih => exact .alloc ih e
  | free _ _ _ e ih => exact .free ih e

theorem InsideCalls.trimmed {g0 g : DynMemStruct} {N : Nat} (hg : Geometry g0 N) (hlev : 0 < g0.bitmapLevel)
    (h0 : Trimmed g0) (h : InsideCalls g0 g) : Trimmed g := by
  induction h with
  | init => exact h0
  | alloc _ hc e ih => exact ih.allocate hc e
  | free hrun hs hin e ih =>
    have hl := hrun.calls.layout
    exact ih.free (hl.geometry hg) (by rw [hl.bitmapLevel]; exact hlev) hs hin e

/-- the bitmaps that hold a table have no other bits -/
theorem Tab.trimmed {g : DynMemStruct} {T : Nat → Nat → Prop} (h : Tab g g.countOfUnitBlock T) (ht : g.touched = []) :
    Trimmed g where
  lt := h.lt
  rows := h.rows
  padding i hi b hb hbit := h.inside i b ((h.bit_iff i hi b hb).mp hbit)
  touched p hp := by
    rw [ht] at hp
    exact absurd hp List.not_mem_nil

theorem Tab.counted {g : DynMemStruct} {T : Nat → Nat → Prop} (h : Tab g g.countOfUnitBlock T) : Counted g := by
  intro i hi hc
  rw [h.count i hi] at hc
  obtain ⟨b, hb⟩ := Finset.card_ne_zero.mp hc
  obtain ⟨hlt, hbit⟩ := Finset.mem_filter.mp hb
  exact ⟨b, Finset.mem_range.mp hlt, hbit⟩

theorem Block.At.inside {g : DynMemStruct} {N : Nat} (hg : Geometry g N) {b : Block} {m : Nat} (h : b.At g m) :
    Inside g b.addr b.size := by
  have haligned := hg.aligned
  have hround : b.addr / 4096 * 4096 = g.beginAddr + m * (4096 * 2^b.level) := by
    have e : m * (4096 * 2^b.level) = 4096 * (m * 2^b.level) := by ring
    have h1 := h.1
    omega
  have hm : m * (4096 * 2^b.level) / (4096 * 2^b.level) = m :=
    Nat.mul_div_cancel m (Nat.mul_pos (by omega) (Nat.two_pow_pos _))
  have hlt := (Nat.le_div_iff_mul_le (Nat.two_pow_pos b.level)).mp (Nat.succ_le_of_lt h.2)
  have e : (m + 1) * (4096 * 2^b.level) = 4096 * (m.succ * 2^b.level) := by
    show _ = 4096 * ((m + 1) * _)
    ring
  unfold Inside
  show _ ∧ g.beginAddr + ((b.addr / 4096 * 4096 - g.beginAddr) / (4096 * 2^b.level) + 1) * (4096 * 2^b.level) ≤ _
  rw [hround, Nat.add_sub_cancel_left, hm, e]
  omega

/-- **Matched calls** keep to the blocks of the heap. -/
theorem Run.insideCalls {g0 g : DynMemStruct} {live : List Block} (h0 : Inv g0 []) (h : Run g0 g live) :
    InsideCalls g0 g := by
  induction h with
  | init => exact .init
  | alloc hrun _ _ e ih => exact .alloc ih (hrun.inv h0).1.table.counted e
  | @free g g' live b ret hrun hb e ih =>
    have hinv := (hrun.inv h0).1
    obtain ⟨m, hat⟩ := hinv.placed b hb
    have hsize := (hinv.sizes b hb).2
    exact .free ih (by omega) (.inl (hat.inside hinv.geometry)) e
  | pages _ _ _ ih => exact ih

/-- **What is rejected**, in every state that any calls reach: a block that is not wholly inside the heap
only if the size, the address itself or the level gives it away.  In a run with no such release that is accepted and
with the counts right, every bit that a call sets or clears is that of a block; matched calls make such runs. -/
theorem rejects_iff (mem : Nat → BitVec 8) {dynMemSize : Nat} (h1 : dynMemBuddyUnitSize < dynMemSize)
    (h2 : dynMemSize ≤ iomapMemoryStartAddress - dynMemoryStartAddress) :
    (∀ g, Calls (ckDynMemInitialize mem dynMemSize) g → ∀ addr size, size < 2^32 →
      ((¬ Inside g addr size → ckDynMemFree g addr size = some (false, g)) ↔ Inside g addr size ∨ Refused g addr size)) ∧
    (∀ g, InsideCalls (ckDynMemInitialize mem dynMemSize) g →
      ∀ p ∈ g.touched, p.1 < g.bitmapLevel ∧ p.2 < g.countOfUnitBlock / 2^p.1) ∧
    ∀ g live, Run (ckDynMemInitialize mem dynMemSize) g live → InsideCalls (ckDynMemInitialize mem dynMemSize) g := by
  have hi := inv_init mem h1 h2
  have hlev0 : 0 < (ckDynMemInitialize mem dynMemSize).bitmapLevel := by
    rw [hi.table.level]
    exact Nat.succ_pos _
  refine ⟨fun g h addr size hs => ?_, fun g h => ?_, fun g live h => h.insideCalls hi⟩
  · have hlev : 0 < g.bitmapLevel := by
      rw [h.layout.bitmapLevel]
      exact hlev0
    have hfit : dynMemoryStartAddress + g.dynMemSize < 2^32 := by
      have h3 := (h.layout.geometry hi.geometry).fits
      have h4 : iomapMemoryStartAddress = 0xbf800000 := rfl
      omega
    rw [free_refused_iff hlev hfit addr hs]
    exact or_iff_not_imp_left.symm
  · exact (h.trimmed hi.geometry hlev0 (hi.table.trimmed rfl)).touched

theorem rejects_iff_below : ckDynMemFree firstMemory 0 4096 = some (false, firstMemory) ∧
    ∀ g live, Run firstMemory g live → ∀ p ∈ g.touched, p.1 < g.bitmapLevel ∧ p.2 < g.countOfUnitBlock / 2^p.1 := by
  obtain ⟨hrejects, htouched, hrun⟩ :=
    rejects_iff (fun _ => 0#8) (by decide : dynMemBuddyUnitSize < 0x1700000) (by decide)
  refine ⟨?_, fun g live h => htouched g (hrun g live h)⟩
  have hpos := firstMemory_inv.geometry.beginPos
  refine (hrejects _ .init 0 4096 (by decide)).mpr (Or.inr (Or.inr (Or.inl hpos))) ?_
  rintro ⟨hle, _⟩
  have hle' : firstMemory.beginAddr ≤ 0 / 4096 * 4096 := hle
  omega

/-- a page is allocated, the page at the end address is released, and then the page that the caller holds -/
def behindCalls : Option (Bool × DynMemStruct) :=
  (ckDynMemAllocate firstMemory 4096).bind fun r => (ckDynMemFree r.2 0x1800000 4096).bind fun r =>
    ckDynMemFree r.2 0x17ff000 4096

/-- **A page behind the heap**: the release of the page at the end address succeeds, with a bit that is no block of level
0; and behind it the release of a page inside the heap goes up to a bit that is no block of level 8. -/
theorem page_behind : firstMemory.countOfUnitBlock = 0x16ff ∧ ¬ Inside firstMemory 0x1800000 4096 ∧
    (ckDynMemFree firstMemory 0x1800000 4096).map (fun r => (r.1, decide ((0, 0x16ff) ∈ r.2.touched))) = some (true, true) ∧
    behindCalls.map (fun r => (r.1, decide ((8, 0x16ff / 2^8) ∈ r.2.touched))) = some (true, true) := by
  have hN : firstMemory.beginAddr = 0x101000 ∧ firstMemory.countOfUnitBlock = 0x16ff := by decide +kernel
  refine ⟨hN.2, ?_, by decide +kernel, by decide +kernel⟩
  have hlev : sizeLevel 4096 = 0 := sizeLevel_page 0
  rintro ⟨_, h⟩
  rw [hN.1, hN.2, hlev] at h
  omega

end Clubcos
