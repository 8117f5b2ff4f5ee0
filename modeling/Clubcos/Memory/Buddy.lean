import Clubcos.Memory.Run

/-!
# The buddy allocator over whole runs

For every memory that `ckDynMemInitialize` is given and every run of matched calls from there:

* `run_safe`            the live blocks and the marked blocks tile the unit blocks, and the counters
                        are right;
* `run_canonical`       the bitmaps are a function of the set of free unit blocks;
* `allocate_complete`   an allocation fails only when no aligned block of its size is free.
-/

set_option linter.unusedVariables false

namespace Clubcos
open Word Dyadic

/-! ## safety -/

/-- the bit of the block `c` of level `i` is set -/
def Marked (g : DynMemStruct) (i c : Nat) : Prop :=
  i < g.bitmapLevel ∧ c < g.countOfUnitBlock / 2^i ∧ bitmapGetBit g i c = true

structure BuddySafe (g : DynMemStruct) (live : List Block) : Prop where
  /-- a live block starts at a multiple of its power-of-two size -/
  aligned : ∀ b ∈ live, ∃ m, b.addr = g.beginAddr + m * (4096 * 2^b.level)
  inside : ∀ b ∈ live, g.beginAddr ≤ b.addr ∧
    b.addr + 4096 * 2^b.level ≤ g.beginAddr + g.countOfUnitBlock * 4096
  live_apart : live.Pairwise (Block.apart g.beginAddr)
  marked_apart : ∀ i c j d u, Marked g i c → Marked g j d → u ∈ blk i c → u ∈ blk j d → i = j ∧ c = d
  live_marked_apart : ∀ b ∈ live, ∀ i c, Marked g i c → ∀ u ∈ b.units g.beginAddr, u ∉ blk i c
  cover : ∀ u < g.countOfUnitBlock,
    (∃ b ∈ live, u ∈ b.units g.beginAddr) ∨ ∃ i c, Marked g i c ∧ u ∈ blk i c
  count : ∀ i < g.bitmapLevel, (g.arBitmap i).count
    = ((Finset.range (g.countOfUnitBlock / 2^i)).filter fun c => bitmapGetBit g i c = true).card
  /-- the padding bits that the buddy test reads are zero -/
  padding : ∀ i < g.bitmapLevel, ∀ c < g.countOfUnitBlock / 2^i,
    g.countOfUnitBlock / 2^i ≤ c ^^^ 1 → bitmapGetBit g i (c ^^^ 1) = false
  used : g.usedSize = (live.map fun b => ceilUint32 b.size dynMemBuddyUnitSize).sum

theorem Inv.marked_iff {g : DynMemStruct} {live : List Block} (h : Inv g live) {i c : Nat} :
    Marked g i c ↔ Maxi (freeUnits g live) i c := by
  constructor
  · rintro ⟨hi, hc, hb⟩
    rw [bitmapGetBit_eq] at hb
    exact (h.table.bit_iff i hi c (lt_rowLen hc)).mp hb
  · intro hM
    have hi : i < g.bitmapLevel := by
      rw [h.table.level]
      exact full_level_lt (freeUnits_lt g live) hM.1
    have hc := h.table.inside i c hM
    refine ⟨hi, hc, ?_⟩
    rw [bitmapGetBit_eq]
    exact (h.table.bit_iff i hi c (lt_rowLen hc)).mpr hM

theorem Inv.safe {g : DynMemStruct} {live : List Block} (h : Inv g live) : BuddySafe g live := by
  constructor
  case aligned =>
    intro b hb
    obtain ⟨m, hm⟩ := h.placed b hb
    exact ⟨m, hm.1⟩
  case inside =>
    intro b hb
    obtain ⟨m, hm⟩ := h.placed b hb
    exact hm.addr_le
  case live_apart => exact h.apart
  case marked_apart =>
    intro i c j d u h1 h2
    exact maxi_unique (h.marked_iff.mp h1) (h.marked_iff.mp h2)
  case live_marked_apart =>
    intro b hb i c hM u hu huc
    exact ((h.marked_iff.mp hM).1 huc).2 b hb hu
  case cover =>
    intro u hu
    by_cases hlive : ∃ b ∈ live, u ∈ b.units g.beginAddr
    · exact Or.inl hlive
    · have hF : u ∈ freeUnits g live := ⟨hu, fun b hb hub => hlive ⟨b, hb, hub⟩⟩
      obtain ⟨i, c, huc, hM⟩ := exists_maxi_mem (freeUnits_lt g live) hF
      exact Or.inr ⟨i, c, h.marked_iff.mpr hM, huc⟩
  case count =>
    intro i hi
    rw [h.table.count i hi]
    exact congrArg Finset.card (Finset.filter_congr fun c _ => by rw [bitmapGetBit_eq])
  case padding =>
    intro i hi c hc hpad
    rw [bitmapGetBit_eq, ← Bool.not_eq_true, h.table.bit_iff i hi _ (buddy_lt_rowLen hc)]
    intro hM
    have := h.table.inside i _ hM
    omega
  case used =>
    rw [h.used]
    refine congrArg List.sum (List.map_congr_left fun b hb => ?_)
    exact (ceilUint32_eq (h.sizes b hb).1 (h.sizes b hb).2).symm

/-- **Safety**: in every state that a run of matched calls reaches. -/
theorem run_safe (mem : Nat → BitVec 8) {dynMemSize : Nat}
    (h1 : dynMemBuddyUnitSize < dynMemSize)
    (h2 : dynMemSize ≤ iomapMemoryStartAddress - dynMemoryStartAddress) {g : DynMemStruct}
    {live : List Block} (h : Run (ckDynMemInitialize mem dynMemSize) g live) : BuddySafe g live :=
  (h.inv (inv_init mem h1 h2)).1.safe

/-- no matched call fails to come back, and every matched release succeeds -/
theorem Run.returns (mem : Nat → BitVec 8) {dynMemSize : Nat}
    (h1 : dynMemBuddyUnitSize < dynMemSize)
    (h2 : dynMemSize ≤ iomapMemoryStartAddress - dynMemoryStartAddress) {g : DynMemStruct}
    {live : List Block} (h : Run (ckDynMemInitialize mem dynMemSize) g live) :
    (∀ size, 1 ≤ size → size ≤ 2^31 → ∃ r, ckDynMemAllocate g size = some r) ∧
      ∀ b ∈ live, ∃ g', ckDynMemFree g b.addr b.size = some (true, g') := by
  have hinv := (h.inv (inv_init mem h1 h2)).1
  constructor
  · intro size h0 hs
    obtain ⟨addr, g', e, _⟩ := hinv.alloc h0 hs
    exact ⟨_, e⟩
  · intro b hb
    obtain ⟨g', e, _⟩ := hinv.free hb
    exact ⟨g', e⟩

/-- the state of a memory of 2 MiB after one page is allocated -/
theorem exists_run_one : ∃ g b, Run (ckDynMemInitialize (fun _ => 0#8) 0x200000) g [b] := by
  have hinv := inv_init (fun _ => 0#8) (show dynMemBuddyUnitSize < 0x200000 by decide) (by decide)
  obtain ⟨addr, g', e, _, _, hnull⟩ := hinv.alloc (show 1 ≤ 4096 by omega) (by omega)
  have hne : addr ≠ 0 := by
    intro h0
    refine hnull.mp h0 0 fun u hu => ?_
    have hlev : sizeLevel 4096 = 0 := sizeLevel_page 0
    have hpos := hinv.geometry.pos
    rw [hlev, mem_blk, pow_zero, Nat.div_one] at hu
    exact ⟨by omega, fun b hb => absurd hb List.not_mem_nil⟩
  have hrun := Run.alloc Run.init (by omega) (by omega) e
  rw [if_neg hne] at hrun
  exact ⟨g', _, hrun⟩

theorem run_safe_one : ∃ g b, BuddySafe g [b] := by
  obtain ⟨g, b, h⟩ := exists_run_one
  exact ⟨g, b, run_safe (fun _ => 0#8) (by decide) (by decide) h⟩

/-! ## canonical form -/

/-- the bitmaps hold the same bytes and the same counts -/
structure SameBitmaps (g g' : DynMemStruct) : Prop where
  bitmapLevel : g'.bitmapLevel = g.bitmapLevel
  bits : ∀ i < g.bitmapLevel, (g'.arBitmap i).bits = (g.arBitmap i).bits
  count : ∀ i < g.bitmapLevel, (g'.arBitmap i).count = (g.arBitmap i).count
  mem : ∀ i < g.bitmapLevel, ∀ t < rowLen g.countOfUnitBlock i,
    g'.mem ((g.arBitmap i).bits + t) = g.mem ((g.arBitmap i).bits + t)

/-- a table determines the bytes and the counts that hold it -/
theorem Tab.same {g0 g g' : DynMemStruct} {T : Nat → Nat → Prop} (hl : SameLayout g0 g)
    (hl' : SameLayout g0 g') (h : Tab g g.countOfUnitBlock T) (h' : Tab g' g'.countOfUnitBlock T) :
    SameBitmaps g g' := by
  have hN : g'.countOfUnitBlock = g.countOfUnitBlock :=
    hl'.countOfUnitBlock.trans hl.countOfUnitBlock.symm
  have hlev : g'.bitmapLevel = g.bitmapLevel := hl'.bitmapLevel.trans hl.bitmapLevel.symm
  have hbits : ∀ i, (g'.arBitmap i).bits = (g.arBitmap i).bits := fun i =>
    (hl'.bits i).trans (hl.bits i).symm
  rw [hN] at h'
  have hbit : ∀ i < g.bitmapLevel, ∀ b < 8 * rowLen g.countOfUnitBlock i, g'.bit i b = g.bit i b := by
    intro i hi b hb
    rw [Bool.eq_iff_iff, h.bit_iff i hi b hb, h'.bit_iff i (hlev ▸ hi) b hb]
  refine ⟨hlev, fun i _ => hbits i, fun i hi => ?_, fun i hi t ht => ?_⟩
  · rw [h.count i hi, h'.count i (hlev ▸ hi)]
    refine congrArg Finset.card (Finset.filter_congr fun b hb => ?_)
    rw [hbit i hi b (lt_rowLen (Finset.mem_range.mp hb))]
  · apply BitVec.eq_of_getLsbD_eq
    intro m hm
    have hb := hbit i hi (t * 8 + m) (by omega)
    have e1 : (t * 8 + m) / 8 = t := by omega
    have e2 : (t * 8 + m) % 8 = m := by omega
    unfold DynMemStruct.bit DynMemStruct.bitAddr at hb
    rwa [e1, e2, hbits i] at hb

/-- **The bitmaps are a function of the free unit blocks**: whatever calls two runs make and in what
order, if they end with the same unit blocks free then the bitmaps and the counts are the same.  With
no block live they are those of `ckDynMemInitialize`. -/
theorem run_canonical (mem : Nat → BitVec 8) {dynMemSize : Nat}
    (h1 : dynMemBuddyUnitSize < dynMemSize)
    (h2 : dynMemSize ≤ iomapMemoryStartAddress - dynMemoryStartAddress) :
    (∀ g live g' live', Run (ckDynMemInitialize mem dynMemSize) g live →
      Run (ckDynMemInitialize mem dynMemSize) g' live' →
      freeUnits g live = freeUnits g' live' → SameBitmaps g g') ∧
    ∀ g, Run (ckDynMemInitialize mem dynMemSize) g [] →
      SameBitmaps (ckDynMemInitialize mem dynMemSize) g ∧ g.usedSize = 0 := by
  have h0 := inv_init mem h1 h2
  have hsame : ∀ g live g' live', Run (ckDynMemInitialize mem dynMemSize) g live →
      Run (ckDynMemInitialize mem dynMemSize) g' live' →
      freeUnits g live = freeUnits g' live' → SameBitmaps g g' := by
    intro g live g' live' hr hr' hfree
    have hi := hr.inv h0
    have hi' := hr'.inv h0
    have ht := hi.1.table
    rw [hfree] at ht
    exact Tab.same hi.2 hi'.2 ht hi'.1.table
  refine ⟨hsame, fun g hr => ⟨?_, (hr.inv h0).1.used⟩⟩
  exact hsame _ _ _ _ Run.init hr ((hr.inv h0).2.freeUnits_eq []).symm

/-- a page allocated and released again -/
theorem run_canonical_page : ∃ g g' b, Run (ckDynMemInitialize (fun _ => 0#8) 0x200000) g [b] ∧
    ckDynMemFree g b.addr b.size = some (true, g') ∧
    SameBitmaps (ckDynMemInitialize (fun _ => 0#8) 0x200000) g' ∧ g'.usedSize = 0 := by
  obtain ⟨g, b, h⟩ := exists_run_one
  have hinv := (h.inv (inv_init (fun _ => 0#8) (by decide) (by decide))).1
  obtain ⟨g', e, _⟩ := hinv.free List.mem_cons_self
  have h' := h.free List.mem_cons_self e
  rw [List.erase_cons_head] at h'
  exact ⟨g, g', b, h, e, (run_canonical (fun _ => 0#8) (by decide) (by decide)).2 g' h'⟩

/-! ## completeness -/

theorem Inv.null_iff {g : DynMemStruct} {live : List Block} (h : Inv g live) {size : Nat}
    (h0 : 1 ≤ size) (hs : size ≤ 2^31) : (ckDynMemAllocate g size).map Prod.fst = some 0 ↔
      ∀ m, ¬ Full (freeUnits g live) (sizeLevel size) m := by
  obtain ⟨addr, g', e, _, _, hnull⟩ := h.alloc h0 hs
  rw [e, ← hnull]
  exact Option.some_inj

theorem full_free_iff {g : DynMemStruct} {live : List Block} {k m : Nat} :
    Full (freeUnits g live) k m ↔ (m + 1) * 2^k ≤ g.countOfUnitBlock ∧
      ∀ u, m * 2^k ≤ u → u < (m + 1) * 2^k → ∀ b ∈ live, u ∉ b.units g.beginAddr := by
  constructor
  · intro hf
    refine ⟨?_, fun u hu hu' => (hf (mem_blk_iff.mpr ⟨hu, hu'⟩)).2⟩
    have h1 := full_lt (freeUnits_lt g live) hf
    exact (Nat.le_div_iff_mul_le (Nat.two_pow_pos k)).mp (Nat.succ_le_of_lt h1)
  · rintro ⟨h1, h2⟩ u hu
    obtain ⟨h3, h4⟩ := mem_blk_iff.mp hu
    exact ⟨by omega, h2 u h3 h4⟩

/-- `n` allocations of one size: the addresses returned and the state after them -/
def allocateTimes (size : Nat) : Nat → DynMemStruct → Option (List Nat × DynMemStruct)
  | 0, g => some ([], g)
  | n+1, g => (ckDynMemAllocate g size).bind fun (addr, g) =>
    (allocateTimes size n g).map fun (addrs, g) => (addr :: addrs, g)

section
variable {g : DynMemStruct} {live : List Block} {i : Nat} (h : Inv g live)
  (hlev : ∀ b ∈ live, b.level = i)
include h hlev

/-- as long as the live blocks are fewer than the blocks of their level, one of these is free -/
theorem Inv.exists_free (hlt : live.length < g.countOfUnitBlock / 2^i) :
    ∃ m, Full (freeUnits g live) i m := by
  classical
  let idx : Block → Nat := fun b => (b.addr - g.beginAddr) / (4096 * 2^i)
  have hcard : (live.map idx).toFinset.card < (Finset.range (g.countOfUnitBlock / 2^i)).card := by
    have := (live.map idx).toFinset_card_le
    rw [List.length_map] at this
    rw [Finset.card_range]
    omega
  obtain ⟨m, hm, hnot⟩ := Finset.exists_mem_notMem_of_card_lt_card hcard
  refine ⟨m, fun u hu => ⟨full_all_iff.mpr (Finset.mem_range.mp hm) hu, fun b hb hub => ?_⟩⟩
  obtain ⟨n, hn⟩ := h.placed b hb
  rw [hn.units, hlev b hb] at hub
  have hidx : idx b = n := by
    show (b.addr - g.beginAddr) / (4096 * 2^i) = n
    rw [hn.1, hlev b hb, Nat.add_sub_cancel_left]
    exact Nat.mul_div_cancel n (Nat.mul_pos (by omega) (Nat.two_pow_pos i))
  refine hnot (List.mem_toFinset.mpr (List.mem_map.mpr ⟨b, hb, ?_⟩))
  rw [hidx]
  exact eq_of_meet hub hu

/-- once they are as many, none is -/
theorem Inv.none_free (hge : g.countOfUnitBlock / 2^i ≤ live.length) (m : Nat) :
    ¬ Full (freeUnits g live) i m := by
  intro hf
  have hm := full_lt (freeUnits_lt g live) hf
  -- one more block would not fit
  let b : Block := ⟨g.beginAddr + m * (4096 * 2^i), 4096 * 2^i⟩
  have hb : b.level = i := sizeLevel_page i
  have hat : b.At g m := by
    refine ⟨?_, ?_⟩
    · rw [hb]
    · rw [hb]
      exact hm
  have hsum := sum_level_le (g := g) (b :: live) (by
      intro c hc
      rcases List.mem_cons.mp hc with rfl | hc
      · exact ⟨m, hat⟩
      · exact h.placed c hc) (by
      refine List.pairwise_cons.mpr ⟨fun c hc u hu => ?_, h.apart⟩
      rw [hat.units, hb] at hu
      exact (hf hu).2 c hc)
  obtain ⟨s, hs, hc, _⟩ := hsum
  have hall : ∀ x ∈ (b :: live).map fun b => 2^b.level, x = 2^i := by
    intro x hx
    obtain ⟨c, hc, rfl⟩ := List.mem_map.mp hx
    rcases List.mem_cons.mp hc with rfl | hc
    · rw [hb]
    · rw [hlev c hc]
  have hle := Finset.card_le_card hs
  rw [hc, List.eq_replicate_of_mem hall, List.sum_replicate, List.length_map, List.length_cons,
    Finset.card_range] at hle
  have h3 := (Nat.le_div_iff_mul_le (Nat.two_pow_pos i)).mpr hle
  omega

end

/-- **Filling a level**: as many allocations as there is room for succeed. -/
theorem Inv.fill {i : Nat} (hi : 4096 * 2^i ≤ 2^31) (n : Nat) : ∀ (g : DynMemStruct)
    (live : List Block), Inv g live → (∀ b ∈ live, b.level = i) →
    live.length + n ≤ g.countOfUnitBlock / 2^i →
    ∃ addrs g' live', allocateTimes (4096 * 2^i) n g = some (addrs, g') ∧
      (∀ a ∈ addrs, a ≠ 0) ∧ Inv g' live' ∧ (∀ b ∈ live', b.level = i) ∧
      live'.length = live.length + n ∧ g'.countOfUnitBlock = g.countOfUnitBlock := by
  induction n with
  | zero =>
    intro g live h hlev _
    exact ⟨[], g, live, rfl, fun a ha => absurd ha List.not_mem_nil, h, hlev, rfl, rfl⟩
  | succ n ih =>
    intro g live h hlev hlen
    have hpos : 1 ≤ 4096 * 2^i := Nat.mul_pos (by omega) (Nat.two_pow_pos i)
    obtain ⟨addr, g1, e, hinv, hl, hnull⟩ := h.alloc hpos hi
    have hne : addr ≠ 0 := by
      intro h0
      obtain ⟨m, hm⟩ := h.exists_free hlev (by omega)
      have h1 := hnull.mp h0 m
      rw [sizeLevel_page] at h1
      exact h1 hm
    rw [if_neg hne] at hinv
    have hN : g1.countOfUnitBlock = g.countOfUnitBlock := hl.countOfUnitBlock
    obtain ⟨addrs, g', live', e', hnz, hinv', hlev', hlen', hN'⟩ := ih g1 _ hinv
      (by
        intro b hb
        rcases List.mem_cons.mp hb with rfl | hb
        · exact sizeLevel_page i
        · exact hlev b hb)
      (by rw [hN, List.length_cons]; omega)
    refine ⟨addr :: addrs, g', live', ?_, ?_, hinv', hlev', ?_, hN'.trans hN⟩
    · show (ckDynMemAllocate g (4096 * 2^i)).bind _ = _
      rw [e]
      show (allocateTimes (4096 * 2^i) n g1).map _ = _
      rw [e']
      rfl
    · intro a ha
      rcases List.mem_cons.mp ha with rfl | ha
      · exact hne
      · exact hnz a ha
    · rw [hlen', List.length_cons]
      omega

/-- **An allocation fails only when it must**, in every state that a run of matched calls reaches:
with `k` the level of the request, it returns `NULL` iff no aligned block of `2^k` unit blocks is
outside all live blocks.  So with no block live, level `i` serves exactly `N / 2^i` requests. -/
theorem allocate_complete (mem : Nat → BitVec 8) {dynMemSize : Nat}
    (h1 : dynMemBuddyUnitSize < dynMemSize)
    (h2 : dynMemSize ≤ iomapMemoryStartAddress - dynMemoryStartAddress) :
    (∀ g live size k, Run (ckDynMemInitialize mem dynMemSize) g live → 1 ≤ size → size ≤ 2^31 →
      size ≤ 4096 * 2^k → (∀ j < k, 4096 * 2^j < size) →
      ((ckDynMemAllocate g size).map Prod.fst = some 0 ↔
        ¬ ∃ m, (m + 1) * 2^k ≤ g.countOfUnitBlock ∧
          ∀ u, m * 2^k ≤ u → u < (m + 1) * 2^k → ∀ b ∈ live, u ∉ b.units g.beginAddr)) ∧
    ∀ g i, Run (ckDynMemInitialize mem dynMemSize) g [] → i < g.bitmapLevel →
      ∃ addrs g', allocateTimes (4096 * 2^i) (g.countOfUnitBlock / 2^i) g = some (addrs, g') ∧
        (∀ a ∈ addrs, a ≠ 0) ∧ (ckDynMemAllocate g' (4096 * 2^i)).map Prod.fst = some 0 := by
  have hinit := inv_init mem h1 h2
  constructor
  · intro g live size k hr h0 hs hk hmin
    have hlevel : sizeLevel size = k := by
      apply Nat.le_antisymm (sizeLevel_le_iff.mpr hk)
      by_contra hlt
      have h3 := hmin (sizeLevel size) (by omega)
      have h4 := sizeLevel_le_iff.mp (Nat.le_refl (sizeLevel size))
      omega
    rw [(hr.inv hinit).1.null_iff h0 hs, hlevel, not_exists]
    exact forall_congr' fun m => not_congr full_free_iff
  · intro g i hr hi
    have hinv := (hr.inv hinit).1
    have hsize : 4096 * 2^i ≤ 2^31 := by
      have h3 : 2^i ≤ g.countOfUnitBlock := by
        rw [hinv.table.level] at hi
        have hpos := hinv.geometry.pos
        exact (Nat.le_log2 (by omega)).mp (by omega)
      have h4 := hinv.geometry.inside
      have h5 := hinv.geometry.fits
      have h6 := hinv.geometry.pos
      have h7 : iomapMemoryStartAddress = 0xbf800000 := rfl
      have h8 : i < 20 := by
        by_contra hge
        have : 2^20 ≤ 2^i := Nat.pow_le_pow_right (by omega) (by omega)
        omega
      have h9 : 2^i ≤ 2^19 := Nat.pow_le_pow_right (by omega) (by omega)
      omega
    obtain ⟨addrs, g', live', e, hnz, hinv', hlev', hlen, hN⟩ := Inv.fill hsize
      (g.countOfUnitBlock / 2^i) g [] hinv (fun b hb => absurd hb List.not_mem_nil)
      (by rw [List.length_nil]; omega)
    refine ⟨addrs, g', e, hnz, ?_⟩
    rw [hinv'.null_iff (Nat.mul_pos (by omega) (Nat.two_pow_pos i)) hsize, sizeLevel_page]
    exact hinv'.none_free hlev' (by rw [hlen, hN, List.length_nil]; omega)

/-- a request of 5000 bytes and the filling of level 0, with 2 MiB of memory -/
theorem allocate_complete_small :
    ((ckDynMemAllocate (ckDynMemInitialize (fun _ => 0#8) 0x200000) 5000).map Prod.fst = some 0 ↔
      ¬ ∃ m, (m + 1) * 2^1 ≤ (ckDynMemInitialize (fun _ => 0#8) 0x200000).countOfUnitBlock ∧
        ∀ u, m * 2^1 ≤ u → u < (m + 1) * 2^1 → ∀ b ∈ ([] : List Block),
          u ∉ b.units (ckDynMemInitialize (fun _ => 0#8) 0x200000).beginAddr) ∧
    ∃ addrs g', allocateTimes (4096 * 2^0)
        ((ckDynMemInitialize (fun _ => 0#8) 0x200000).countOfUnitBlock / 2^0)
        (ckDynMemInitialize (fun _ => 0#8) 0x200000) = some (addrs, g') ∧
      (∀ a ∈ addrs, a ≠ 0) ∧ (ckDynMemAllocate g' (4096 * 2^0)).map Prod.fst = some 0 := by
  have h := allocate_complete (fun _ => 0#8) (show dynMemBuddyUnitSize < 0x200000 by decide)
    (by decide)
  refine ⟨h.1 _ [] 5000 1 Run.init (by omega) (by omega) (by omega) ?_, h.2 _ 0 Run.init ?_⟩
  · intro j hj
    obtain rfl : j = 0 := by omega
    omega
  · exact Nat.succ_pos _

end Clubcos
