import Clubcos.Memory.Run

/-!
# Requests of any 32-bit size, and releases of any address

The level loop of both calls ends only for sizes up to `2^31`: from level 20 on the shift leaves the
word.  Within a page of `2^32` the rounding wraps to the size 0.

* `Pool`          an initialized allocator with the free unit blocks `F`, whatever calls it comes from;
* `serves_iff`    an allocation does what it promises for the sizes up to `2^31`, and for the wrapping
                  ones when nothing is free;
* `free_refused_iff`   which releases are rejected.
-/

namespace Clubcos
open Word Dyadic

/-! ## sizes above `2^31` -/

theorem bitmapIdxLoop_none {size : Nat} (h : ∀ j, u32 (dynMemBuddyUnitSize <<< j) < size)
    (fuel idx : Nat) : bitmapIdxLoop size fuel idx = none := by
  induction fuel generalizing idx with
  | zero => rfl
  | succ fuel ih =>
    show (if u32 (dynMemBuddyUnitSize <<< idx) < size then bitmapIdxLoop size fuel (idx+1)
      else some idx) = none
    rw [if_pos (h idx)]
    exact ih (idx+1)

/-- one bit, shifted left, is at most the top bit or gone -/
theorem unit_shl_le (j : Nat) : u32 (dynMemBuddyUnitSize <<< j) ≤ 2^31 := by
  have e : dynMemBuddyUnitSize <<< j = 4096 * 2^j := Nat.shiftLeft_eq 4096 j
  rcases Nat.lt_or_ge j 20 with h | h
  · have h1 : 2^j ≤ 2^19 := Nat.pow_le_pow_right (by omega) (by omega)
    rw [unit_shl h]
    omega
  · obtain ⟨n, rfl⟩ := Nat.exists_eq_add_of_le h
    have e2 : 4096 * 2^(20 + n) = 2^32 * 2^n := by
      rw [pow_add]
      ring
    rw [e, e2, u32, Nat.mul_mod_right]
    omega

theorem bitmapIdx_none {size : Nat} (h1 : 2^31 < size) (h2 : size ≤ 2^32 - 4096) :
    bitmapIdx (ceilUint32 size dynMemBuddyUnitSize) = none := by
  have e : ceilUint32 size dynMemBuddyUnitSize = (size + 4095) / 4096 * 4096 := by
    show u32 (size + 4096 - 1) / 4096 * 4096 = _
    rw [u32_of_lt (by omega)]
    rfl
  rw [e]
  refine bitmapIdxLoop_none (fun j => ?_) 32 0
  have := unit_shl_le j
  omega

/-- the rounding wraps around -/
theorem ceilUint32_wraps {size : Nat} (h1 : 2^32 - 4096 < size) (h2 : size < 2^32) :
    ceilUint32 size dynMemBuddyUnitSize = 0 := by
  show (size + 4096 - 1) % 2^32 / 4096 * 4096 = 0
  omega

theorem bitmapIdx_zero : bitmapIdx 0 = some 0 := rfl

/-! ## allocation -/

/-- an initialized allocator whose free unit blocks are `F` -/
structure Pool (g : DynMemStruct) (F : Set Nat) : Prop where
  geometry : Geometry g g.countOfUnitBlock
  table : Tab g g.countOfUnitBlock (Maxi F)
  inside : ∀ u ∈ F, u < g.countOfUnitBlock

theorem Inv.pool {g : DynMemStruct} {live : List Block} (h : Inv g live) : Pool g (freeUnits g live) :=
  ⟨h.geometry, h.table, freeUnits_lt g live⟩

/-- The call comes back, with `NULL` and the state as it was, or with the address of a block of at
least `size` bytes all of which was free. -/
def Serves (g : DynMemStruct) (F : Set Nat) (size : Nat) : Prop :=
  ∃ addr g', ckDynMemAllocate g size = some (addr, g') ∧
    (addr = 0 ∧ g' = g ∨
      ∃ k m, addr = g.beginAddr + m * (4096 * 2^k) ∧ size ≤ 4096 * 2^k ∧ Full F k m)

/-- a size above `2^31` that does not wrap keeps the level loop going -/
theorem allocate_hangs (g : DynMemStruct) {size : Nat} (h1 : 2^31 < size) (h2 : size ≤ 2^32 - 4096) :
    ckDynMemAllocate g size = none := by
  unfold ckDynMemAllocate
  rw [if_neg (by omega)]
  simp only [bitmapIdx_none h1 h2]

section
variable {g : DynMemStruct} {F : Set Nat} (h : Pool g F)
include h

/-- a free block ends inside the 32-bit addresses -/
theorem Pool.top {k m : Nat} (hm : Full F k m) :
    4096 * 2^k < 2^32 - 4096 ∧ u32 (g.beginAddr + m * (4096 * 2^k)) = g.beginAddr + m * (4096 * 2^k) := by
  have h1 := (Nat.le_div_iff_mul_le (Nat.two_pow_pos k)).mp (Nat.succ_le_of_lt (full_lt h.inside hm))
  have e1 : m.succ * 2^k = m * 2^k + 2^k := Nat.succ_mul _ _
  have e2 : m * (4096 * 2^k) = 4096 * (m * 2^k) := by ring
  have h2 := h.geometry.inside
  have h3 := h.geometry.fits
  have h4 : iomapMemoryStartAddress = 0xbf800000 := rfl
  have h5 := Nat.two_pow_pos k
  refine ⟨by omega, u32_of_lt ?_⟩
  rw [e2]
  omega

/-- a part of the free unit blocks is taken out of the table -/
theorem Pool.take {g' : DynMemStruct} {F' : Set Nat} (hf : SameLayout g g')
    (ht : Tab g' g.countOfUnitBlock (Maxi F')) (hF : F' ⊆ F) : Pool g' F' := by
  have hN : g'.countOfUnitBlock = g.countOfUnitBlock := hf.countOfUnitBlock
  exact ⟨hN ▸ hf.geometry h.geometry, hN ▸ ht, fun u hu => hN ▸ h.inside u (hF hu)⟩

/-- **An allocation of up to `2^31` bytes** takes a block of its level, if one is free. -/
theorem Pool.allocate {size : Nat} (h0 : 1 ≤ size) (hsize : size ≤ 2^31) :
    ckDynMemAllocate g size = some (0, g) ∨ ∃ m g', Full F (sizeLevel size) m ∧
      Pool g' (F \ blk (sizeLevel size) m) ∧
      ckDynMemAllocate g size = some (g.beginAddr + m * (4096 * 2^(sizeLevel size)), g') := by
  rcases allocate_spec h.table h.inside h0 hsize with ⟨_, e⟩ | ⟨m, g', hm, hf, ht, e⟩
  · exact Or.inl e
  · exact Or.inr ⟨m, _, hm, h.take (hf.sameLayout _) (ht.setUsed _) Set.sdiff_subset,
      (h.top hm).2 ▸ e⟩

/-- **An allocation of a size that wraps** takes one unit block, if one is free. -/
theorem Pool.allocate_wraps {size : Nat} (h1 : 2^32 - 4096 < size) (h2 : size < 2^32) :
    F = ∅ ∧ ckDynMemAllocate g size = some (0, g) ∨ ∃ m g', Full F 0 m ∧ Pool g' (F \ blk 0 m) ∧
      ckDynMemAllocate g size = some (g.beginAddr + m * (4096 * 2^0), g') := by
  have hlev : ¬ g.bitmapLevel ≤ 0 := by
    rw [h.table.level]
    omega
  have e : ckDynMemAllocate g size = allocLoop g 0 0 (g.bitmapLevel - 0) 0 := by
    unfold ckDynMemAllocate
    rw [if_neg (by omega), ceilUint32_wraps h1 h2]
    simp only [bitmapIdx_zero]
    exact if_neg hlev
  rw [e]
  rcases allocLevels_spec h.table h.inside 0 0 with ⟨hno, e⟩ | ⟨m, g', hm, hf, ht, e⟩
  · refine Or.inl ⟨Set.eq_empty_of_forall_notMem fun u hu => hno u fun v hv => ?_, e⟩
    have huv : v = u := by
      rw [mem_blk, pow_zero, Nat.div_one] at hv
      exact hv
    exact huv ▸ hu
  · exact Or.inr ⟨m, _, hm, h.take (hf.sameLayout _) (ht.setUsed _) Set.sdiff_subset,
      (h.top hm).2 ▸ e⟩

/-- one page is no block of nearly `2^32` bytes -/
theorem Pool.wraps_short {size u : Nat} (h1 : 2^32 - 4096 < size) (h2 : size < 2^32) (hu : u ∈ F) :
    ¬ Serves g F size := by
  rintro ⟨addr, g', e, hres⟩
  rcases h.allocate_wraps h1 h2 with ⟨hF, _⟩ | ⟨m, g₁, _, _, e₁⟩
  · exact absurd (hF ▸ hu) (Set.notMem_empty u)
  · have hpos := h.geometry.beginPos
    obtain ⟨rfl, rfl⟩ := Prod.mk.inj (Option.some.inj (e.symm.trans e₁))
    rcases hres with ⟨h0, _⟩ | ⟨k, n, _, hle, hn⟩
    · omega
    · have := (h.top hn).1
      omega

/-- **Requests of every 32-bit size**: the promise is kept up to `2^31`; above it the level loop does
not end, or a size that has wrapped is served with one page. -/
theorem serves_iff {size : Nat} (hs : size < 2^32) :
    Serves g F size ↔ size ≤ 2^31 ∨ (2^32 - 4096 < size ∧ F = ∅) := by
  constructor
  · intro hserves
    rcases Nat.lt_or_ge (2^31) size with hbig | hle
    · rcases Nat.lt_or_ge (2^32 - 4096) size with hwrap | hle
      · refine Or.inr ⟨hwrap, Set.eq_empty_of_forall_notMem fun u hu => ?_⟩
        exact h.wraps_short hwrap hs hu hserves
      · obtain ⟨addr, g', e, _⟩ := hserves
        rw [allocate_hangs g hbig hle] at e
        cases e
    · exact Or.inl hle
  · rintro (hle | ⟨hwrap, hF⟩)
    · rcases Nat.eq_zero_or_pos size with rfl | h0
      · exact ⟨0, g, rfl, Or.inl ⟨rfl, rfl⟩⟩
      · rcases h.allocate h0 hle with e | ⟨m, g', hm, _, e⟩
        · exact ⟨0, g, e, Or.inl ⟨rfl, rfl⟩⟩
        · exact ⟨_, g', e, Or.inr ⟨_, m, rfl, sizeLevel_le_iff.mp (Nat.le_refl _), hm⟩⟩
    · rcases h.allocate_wraps hwrap hs with ⟨_, e⟩ | ⟨m, _, hm, _⟩
      · exact ⟨0, g, e, Or.inl ⟨rfl, rfl⟩⟩
      · exact absurd (hF ▸ hm (first_mem 0 m)) (Set.notMem_empty _)

end

/-- 23 MiB of memory -/
def firstMemory : DynMemStruct := ckDynMemInitialize (fun _ => 0#8) 0x1700000

theorem firstMemory_inv : Inv firstMemory [] :=
  inv_init (fun _ => 0#8) (by decide : dynMemBuddyUnitSize < 0x1700000) (by decide)

theorem serves_iff_small : Serves firstMemory (freeUnits firstMemory []) 5000 :=
  (serves_iff firstMemory_inv.pool (by decide)).mpr (Or.inl (by decide))

/-- **Two requests above `2^31`**: all but one of the `2^32` bytes are served with one page, and `2^31 + 1`
bytes keep the level loop going. -/
theorem huge_request :
    ¬ Serves firstMemory (freeUnits firstMemory []) 0xffffffff ∧
    ckDynMemAllocate firstMemory 0x80000001 = none ∧
    ¬ Serves firstMemory (freeUnits firstMemory []) 0x80000001 := by
  have hhang : ckDynMemAllocate firstMemory 0x80000001 = none :=
    allocate_hangs firstMemory (by decide) (by decide)
  refine ⟨?_, hhang, ?_⟩
  · have hmem : 0 ∈ freeUnits firstMemory [] := ⟨firstMemory_inv.geometry.pos, List.forall_mem_nil _⟩
    exact firstMemory_inv.pool.wraps_short (by decide) (by decide) hmem
  · rintro ⟨addr, g', e, _⟩
    rw [hhang] at e
    cases e

/-! ## release -/

theorem splitLoop_frame (start n : Nat) : ∀ (block : Nat) (g : DynMemStruct),
    Frame g (splitLoop start n block g).2 := by
  induction n with
  | zero => exact fun _ g => Frame.refl g
  | succ n ih =>
    intro block g
    rw [splitLoop_succ]
    exact (frame_mark g _ _).trans (ih (block * 2) _)

theorem mergeLoop_frame (n : Nat) : ∀ (now block : Nat) (g : DynMemStruct),
    Frame g (mergeLoop n now block g) := by
  induction n with
  | zero => exact fun _ _ g => Frame.refl g
  | succ n ih =>
    intro now block g
    rw [mergeLoop_succ]
    by_cases hbud : bitmapGetBit g now (block ^^^ 1) = true
    · rw [if_pos hbud]
      by_cases htop : g.bitmapLevel ≤ now + 1
      · rw [if_pos htop]
        exact Frame.refl g
      · rw [if_neg htop]
        exact ((frame_join g now block).trans (frame_mark _ (now + 1) (block / 2))).trans (ih (now + 1) (block / 2) _)
    · rw [if_neg hbud]
      exact Frame.refl g

/-! ## any run of calls -/

theorem takeBlock_layout {g g' : DynMemStruct} {start size now addr : Nat}
    (h : takeBlock g start size now = some (addr, g')) : SameLayout g g' := by
  unfold takeBlock at h
  simp only [] at h
  split at h
  · cases h
  · cases h
    refine Frame.sameLayout (Frame.trans ?_ (splitLoop_frame start (now - start) _ _)) _
    exact ((frame_setMem g _ _).trans (frame_touch _ now _)).trans (frame_setCount _ now _)

theorem allocLoop_layout {g g' : DynMemStruct} {start size addr n : Nat} : ∀ {now : Nat},
    allocLoop g start size n now = some (addr, g') → SameLayout g g' := by
  intro now h
  rcases allocLoop_spec g start size n now with ⟨e, _⟩ | ⟨j, _, _, _, e⟩
  · rw [e] at h
    cases h
    exact SameLayout.refl g
  · rw [e] at h
    exact takeBlock_layout h

theorem allocate_layout {g g' : DynMemStruct} {size addr : Nat}
    (h : ckDynMemAllocate g size = some (addr, g')) : SameLayout g g' := by
  unfold ckDynMemAllocate at h
  by_cases h0 : size = 0
  · rw [if_pos h0] at h
    cases h
    exact SameLayout.refl g
  · rw [if_neg h0] at h
    simp only [] at h
    split at h
    · cases h
    · split at h
      · cases h
        exact SameLayout.refl g
      · exact allocLoop_layout h

/-- a release is rejected and changes nothing, or it succeeds and leaves the layout alone -/
theorem free_cases {g g' : DynMemStruct} {addr size : Nat} {ret : Bool}
    (h : ckDynMemFree g addr size = some (ret, g')) :
    ret = false ∧ g' = g ∨ ret = true ∧ SameLayout g g' := by
  unfold ckDynMemFree at h
  split at h
  · cases h
    exact Or.inl ⟨rfl, rfl⟩
  · split at h
    · cases h
      exact Or.inl ⟨rfl, rfl⟩
    · simp only [] at h
      split at h
      · cases h
      · split at h
        · cases h
          exact Or.inl ⟨rfl, rfl⟩
        · split at h
          · cases h
          · cases h
            exact Or.inr ⟨rfl, ((frame_mark g _ _).trans (mergeLoop_frame _ _ _ _)).sameLayout _⟩

/-- any calls that come back, matched or not -/
inductive Calls (g0 : DynMemStruct) : DynMemStruct → Prop
  | init : Calls g0 g0
  | alloc {g g' size addr} : Calls g0 g → ckDynMemAllocate g size = some (addr, g') → Calls g0 g'
  | free {g g' addr size ret} : Calls g0 g → ckDynMemFree g addr size = some (ret, g') → Calls g0 g'

theorem Calls.layout {g0 g : DynMemStruct} (h : Calls g0 g) : SameLayout g0 g := by
  induction h with
  | init => exact SameLayout.refl g0
  | alloc _ e ih => exact ih.trans (allocate_layout e)
  | free _ e ih =>
    rcases free_cases e with ⟨_, rfl⟩ | ⟨_, hl⟩
    · exact ih
    · exact ih.trans hl

/-- The power-of-two block at the level of `size` that `addr` lies in is wholly inside the heap. -/
def Inside (g : DynMemStruct) (addr size : Nat) : Prop :=
  g.beginAddr ≤ addr / 4096 * 4096 ∧
    g.beginAddr + ((addr / 4096 * 4096 - g.beginAddr) / (4096 * 2^(sizeLevel size)) + 1) *
      (4096 * 2^(sizeLevel size)) ≤ g.beginAddr + g.countOfUnitBlock * 4096

/-- what `ckDynMemFree` looks at before it takes a bit in hand -/
def Refused (g : DynMemStruct) (addr size : Nat) : Prop :=
  size = 0 ∨ addr < g.beginAddr ∨ dynMemoryStartAddress + g.dynMemSize < addr ∨
    size ≤ 2^31 ∧ g.bitmapLevel ≤ sizeLevel size

theorem free_refused_iff {g : DynMemStruct} (hlev : 0 < g.bitmapLevel)
    (hfit : dynMemoryStartAddress + g.dynMemSize < 2^32) (addr : Nat) {size : Nat} (hs : size < 2^32) :
    ckDynMemFree g addr size = some (false, g) ↔ Refused g addr size := by
  have hend : u32 (dynMemoryStartAddress + g.dynMemSize) = dynMemoryStartAddress + g.dynMemSize :=
    u32_of_lt hfit
  unfold ckDynMemFree Refused
  by_cases h0 : size = 0
  · rw [if_pos h0]
    exact iff_of_true rfl (Or.inl h0)
  rw [if_neg h0, hend]
  by_cases hrange : addr < g.beginAddr ∨ dynMemoryStartAddress + g.dynMemSize < addr
  · rw [if_pos hrange]
    exact iff_of_true rfl (Or.inr (hrange.imp_right Or.inl))
  rw [if_neg hrange]
  obtain ⟨hlow, hhigh⟩ := not_or.mp hrange
  have hrefused : (size = 0 ∨ addr < g.beginAddr ∨ dynMemoryStartAddress + g.dynMemSize < addr ∨
      size ≤ 2^31 ∧ g.bitmapLevel ≤ sizeLevel size) ↔ size ≤ 2^31 ∧ g.bitmapLevel ≤ sizeLevel size := by
    rw [or_iff_right h0, or_iff_right hlow, or_iff_right hhigh]
  rw [hrefused]
  simp only []
  rcases Nat.lt_or_ge (2^31) size with hbig | hle
  · -- the level loop does not end, or the size has wrapped and level 0 is served
    refine iff_of_false ?_ (fun h => absurd h.1 (by omega))
    rcases Nat.lt_or_ge (2^32 - 4096) size with hwrap | hle
    · rw [ceilUint32_wraps hwrap hs, bitmapIdx_zero]
      simp only []
      rw [if_neg (by omega)]
      split
      · exact nofun
      · intro h
        cases h
    · rw [bitmapIdx_none hbig hle]
      exact nofun
  · rw [bitmapIdx_eq (by omega) hle]
    simp only []
    by_cases htop : g.bitmapLevel ≤ sizeLevel size
    · rw [if_pos htop]
      exact iff_of_true rfl ⟨hle, htop⟩
    · rw [if_neg htop]
      refine iff_of_false ?_ (fun h => htop h.2)
      split
      · exact nofun
      · intro h
        cases h

end Clubcos
