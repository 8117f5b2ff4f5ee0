import Mathlib.Algebra.BigOperators.Ring.List
import Mathlib.Algebra.Order.BigOperators.Group.List
import Mathlib.Order.Interval.Finset.Nat
import Clubcos.Memory.Free
import Clubcos.Memory.Init

/-!
# Runs of matched allocations and releases

A `Block` is what a caller remembers of an allocation: the address returned and the size requested.
`Run g0 g live` says that `g` is reached from `g0` by allocations and by releases of blocks that are
live, each with its own address and size; `live` are the blocks still held.  The step `pages` calls
nothing: the caller of a block of exactly `4096 * 2^k` bytes goes over to holding its pages one by
one, as `csCleanupProcess` does when it releases a stack.

* `Inv`        the invariant: the table is the one of the units outside the live blocks, which are
               placed on multiples of their size and lie apart;
* `Inv.alloc`, `Inv.free`, `Inv.pages`   one step keeps it, and no call fails to come back;
* `Run.inv`    every run keeps it.
-/

set_option linter.unusedVariables false

namespace Clubcos
open Word Dyadic

structure Block where
  addr : Nat
  size : Nat
deriving DecidableEq

/-- the level of the buddy blocks that a request of the size of `b` is served from -/
def Block.level (b : Block) : Nat := sizeLevel b.size

/-- the size, rounded up to pages -/
def Block.pageSize (b : Block) : Nat := (b.size + 4095) / 4096 * 4096

/-- the unit blocks that the power-of-two block at the address of `b` consists of -/
def Block.units (beginAddr : Nat) (b : Block) : Set Nat :=
  {u | b.addr ≤ beginAddr + u * 4096 ∧ beginAddr + u * 4096 < b.addr + 4096 * 2^b.level}

def Block.pages (b : Block) : List Block :=
  (List.range (b.size / 4096)).map fun j => ⟨b.addr + j * 4096, 4096⟩

inductive Run (g0 : DynMemStruct) : DynMemStruct → List Block → Prop
  | init : Run g0 g0 []
  | alloc {g g' live size addr} : Run g0 g live → 1 ≤ size → size ≤ 2^31 →
      ckDynMemAllocate g size = some (addr, g') →
      Run g0 g' (if addr = 0 then live else ⟨addr, size⟩ :: live)
  | free {g g' live b ret} : Run g0 g live → b ∈ live →
      ckDynMemFree g b.addr b.size = some (ret, g') → Run g0 g' (live.erase b)
  | pages {g live b k} : Run g0 g live → b ∈ live → b.size = 4096 * 2^k →
      Run g0 g (b.pages ++ live.erase b)

/-- the unit blocks outside every live block -/
def freeUnits (g : DynMemStruct) (live : List Block) : Set Nat :=
  {u | u < g.countOfUnitBlock ∧ ∀ b ∈ live, u ∉ b.units g.beginAddr}

/-! ## blocks -/

/-- `b` is the block `m` of its level -/
def Block.At (g : DynMemStruct) (b : Block) (m : Nat) : Prop :=
  b.addr = g.beginAddr + m * (4096 * 2^b.level) ∧ m < g.countOfUnitBlock / 2^b.level

theorem Block.At.units {g : DynMemStruct} {b : Block} {m : Nat} (h : b.At g m) :
    b.units g.beginAddr = blk b.level m := by
  ext u
  rw [mem_blk_iff]
  show b.addr ≤ _ ∧ _ < b.addr + _ ↔ _
  rw [h.1]
  have e1 : m * (4096 * 2^b.level) = 4096 * (m * 2^b.level) := by ring
  have e2 : (m + 1) * 2^b.level = m * 2^b.level + 2^b.level := Nat.succ_mul _ _
  omega

theorem Block.At.units_lt {g : DynMemStruct} {b : Block} {m : Nat} (h : b.At g m) :
    ∀ u ∈ b.units g.beginAddr, u < g.countOfUnitBlock := by
  intro u hu
  rw [h.units] at hu
  exact full_all_iff.mpr h.2 hu

/-- the first and the last address of a block lie between those of the unit blocks -/
theorem Block.At.addr_le {g : DynMemStruct} {b : Block} {m : Nat} (h : b.At g m) :
    g.beginAddr ≤ b.addr ∧ b.addr + 4096 * 2^b.level ≤ g.beginAddr + g.countOfUnitBlock * 4096 := by
  have h1 := (Nat.le_div_iff_mul_le (Nat.two_pow_pos b.level)).mp (Nat.succ_le_of_lt h.2)
  have e1 : m * (4096 * 2^b.level) = 4096 * (m * 2^b.level) := by ring
  have e2 : (m + 1) * 2^b.level = m * 2^b.level + 2^b.level := Nat.succ_mul _ _
  have e3 : m.succ * 2^b.level = (m + 1) * 2^b.level := rfl
  rw [h.1]
  omega

/-- `apart b c`: no unit block belongs to both -/
def Block.apart (beginAddr : Nat) (b c : Block) : Prop :=
  ∀ u ∈ b.units beginAddr, u ∉ c.units beginAddr

theorem Block.apart_symm {beginAddr : Nat} {b c : Block} (h : b.apart beginAddr c) :
    c.apart beginAddr b := fun u hu hb => h u hb hu

/-! ## the invariant -/

/-- the fields that only initialization writes are as in `g0` -/
def SameLayout (g0 g : DynMemStruct) : Prop := Frame (g0.setUsed g.usedSize) g

theorem SameLayout.refl (g : DynMemStruct) : SameLayout g g := Frame.refl g

theorem SameLayout.trans {g g' g'' : DynMemStruct} (h : SameLayout g g') (h' : SameLayout g' g'') :
    SameLayout g g'' :=
  ⟨h'.1.trans h.1, h'.2.trans h.2, rfl, h'.4.trans h.4, h'.5.trans h.5,
    fun i => (h'.6 i).trans (h.6 i)⟩

theorem Frame.sameLayout {g g' : DynMemStruct} (hf : Frame g g') (n : Nat) :
    SameLayout g (g'.setUsed n) := ⟨hf.1, hf.2, rfl, hf.4, hf.5, hf.6⟩

theorem SameLayout.geometry {g g' : DynMemStruct} {N : Nat} (h : SameLayout g g') (hg : Geometry g N) :
    Geometry g' N :=
  Geometry.frame (g := g.setUsed g'.usedSize) ⟨hg.1, hg.2, hg.3, hg.4, hg.5, hg.6⟩ h

theorem SameLayout.freeUnits_eq {g g' : DynMemStruct} (h : SameLayout g g') (live : List Block) :
    freeUnits g' live = freeUnits g live := by
  show {u | u < g'.countOfUnitBlock ∧ ∀ b ∈ live, u ∉ b.units g'.beginAddr} = _
  rw [h.countOfUnitBlock, h.beginAddr]
  rfl

theorem SameLayout.at_iff {g g' : DynMemStruct} (h : SameLayout g g') {b : Block} {m : Nat} :
    b.At g' m ↔ b.At g m := by
  show b.addr = g'.beginAddr + _ ∧ m < g'.countOfUnitBlock / _ ↔ _
  rw [h.countOfUnitBlock, h.beginAddr]
  rfl

structure Inv (g : DynMemStruct) (live : List Block) : Prop where
  geometry : Geometry g g.countOfUnitBlock
  table : Tab g g.countOfUnitBlock (Maxi (freeUnits g live))
  sizes : ∀ b ∈ live, 1 ≤ b.size ∧ b.size ≤ 2^31
  placed : ∀ b ∈ live, ∃ m, b.At g m
  apart : live.Pairwise (Block.apart g.beginAddr)
  used : g.usedSize = (live.map Block.pageSize).sum

/-- the invariant of a state laid out like `g`, in terms of `g` -/
theorem Inv.of_layout {g g' : DynMemStruct} {live : List Block} (hl : SameLayout g g')
    (hgeo : Geometry g g.countOfUnitBlock)
    (ht : Tab g' g.countOfUnitBlock (Maxi (freeUnits g live)))
    (hs : ∀ b ∈ live, 1 ≤ b.size ∧ b.size ≤ 2^31) (hp : ∀ b ∈ live, ∃ m, b.At g m)
    (ha : live.Pairwise (Block.apart g.beginAddr))
    (hu : g'.usedSize = (live.map Block.pageSize).sum) : Inv g' live := by
  have hN : g'.countOfUnitBlock = g.countOfUnitBlock := hl.countOfUnitBlock
  have hB : g'.beginAddr = g.beginAddr := hl.beginAddr
  refine ⟨?_, ?_, hs, fun b hb => ?_, hB.symm ▸ ha, hu⟩
  · rw [hN]
    exact hl.geometry hgeo
  · rw [hN, hl.freeUnits_eq]
    exact ht
  · obtain ⟨m, hm⟩ := hp b hb
    exact ⟨m, hl.at_iff.mpr hm⟩

theorem freeUnits_lt (g : DynMemStruct) (live : List Block) :
    ∀ u ∈ freeUnits g live, u < g.countOfUnitBlock := fun _ hu => hu.1

theorem freeUnits_perm {g : DynMemStruct} {live live' : List Block} (h : live.Perm live') :
    freeUnits g live = freeUnits g live' := by
  ext u
  exact and_congr_right fun _ => forall_congr' fun b => imp_congr_left h.mem_iff

theorem Inv.perm {g : DynMemStruct} {live live' : List Block} (hi : Inv g live)
    (h : live.Perm live') : Inv g live' :=
  ⟨hi.geometry, freeUnits_perm (g := g) h ▸ hi.table, fun b hb => hi.sizes b (h.mem_iff.mpr hb),
    fun b hb => hi.placed b (h.mem_iff.mpr hb),
    (h.pairwise_iff Block.apart_symm).mp hi.apart, hi.used.trans (h.map _).sum_eq⟩

theorem freeUnits_cons (g : DynMemStruct) (b : Block) (live : List Block) :
    freeUnits g (b :: live) = freeUnits g live \ b.units g.beginAddr := by
  ext u
  show u < _ ∧ (∀ c ∈ b :: live, _) ↔ (u < _ ∧ ∀ c ∈ live, _) ∧ _
  rw [List.forall_mem_cons]
  exact ⟨fun h => ⟨⟨h.1, h.2.2⟩, h.2.1⟩, fun h => ⟨h.1.1, h.2, h.1.2⟩⟩

/-! ## how much the live blocks hold -/

theorem card_blk {N k m : Nat} (h : m < N / 2^k) :
    ∃ s : Finset Nat, s ⊆ Finset.range N ∧ s.card = 2^k ∧ ∀ u, u ∈ s ↔ u ∈ blk k m := by
  refine ⟨Finset.Ico (m * 2^k) ((m+1) * 2^k), ?_, ?_, ?_⟩
  · intro u hu
    rw [Finset.mem_range]
    exact full_all_iff.mpr h (mem_blk_iff.mpr (Finset.mem_Ico.mp hu))
  · rw [Nat.card_Ico, Nat.succ_mul, Nat.add_sub_cancel_left]
  · intro u
    rw [Finset.mem_Ico, mem_blk_iff]

/-- the power-of-two blocks of the live blocks fit into the unit blocks side by side -/
theorem sum_level_le {g : DynMemStruct} (live : List Block) (hp : ∀ b ∈ live, ∃ m, b.At g m)
    (ha : live.Pairwise (Block.apart g.beginAddr)) :
    ∃ s : Finset Nat, s ⊆ Finset.range g.countOfUnitBlock ∧
      s.card = (live.map fun b => 2^b.level).sum ∧
      ∀ u, u ∈ s ↔ ∃ b ∈ live, u ∈ b.units g.beginAddr := by
  induction live with
  | nil => exact ⟨∅, Finset.empty_subset _, rfl, fun u => by simp⟩
  | cons b live ih =>
    obtain ⟨s, hs, hc, hm⟩ := ih (fun c h => hp c (List.mem_cons_of_mem _ h)) (List.pairwise_cons.mp ha).2
    obtain ⟨m, hat⟩ := hp b List.mem_cons_self
    obtain ⟨t, ht, hct, hmt⟩ := card_blk hat.2
    rw [← hat.units] at hmt
    have hdis : Disjoint t s := by
      rw [Finset.disjoint_left]
      intro u hut hus
      obtain ⟨c, hcl, hcu⟩ := (hm u).mp hus
      exact (List.pairwise_cons.mp ha).1 c hcl u ((hmt u).mp hut) hcu
    refine ⟨t ∪ s, Finset.union_subset ht hs, ?_, fun u => ?_⟩
    · rw [Finset.card_union_of_disjoint hdis, hc, hct, List.map_cons, List.sum_cons]
    · rw [Finset.mem_union, hmt, hm, List.exists_mem_cons_iff]

theorem pageSize_le (b : Block) : b.pageSize ≤ 4096 * 2^b.level :=
  ceil_le_iff.mpr (sizeLevel_le_iff.mp (Nat.le_refl _))

theorem sum_pageSize_le {g : DynMemStruct} {live : List Block} (hp : ∀ b ∈ live, ∃ m, b.At g m)
    (ha : live.Pairwise (Block.apart g.beginAddr)) :
    (live.map Block.pageSize).sum ≤ 4096 * g.countOfUnitBlock := by
  obtain ⟨s, hs, hc, _⟩ := sum_level_le live hp ha
  have h1 := Finset.card_le_card hs
  rw [Finset.card_range, hc] at h1
  have h2 : (live.map Block.pageSize).sum ≤ (live.map fun b => 4096 * 2^b.level).sum :=
    List.sum_le_sum fun b _ => pageSize_le b
  rw [List.sum_map_mul_left] at h2
  omega

/-! ## the steps -/

section
variable {g : DynMemStruct} {live : List Block} (h : Inv g live)
include h

theorem Inv.top : g.beginAddr + g.countOfUnitBlock * 4096 ≤ 2^32 := by
  have h1 := h.geometry.inside
  have h2 := h.geometry.pos
  have h3 := h.geometry.fits
  have h4 : iomapMemoryStartAddress = 0xbf800000 := rfl
  omega

theorem Inv.used_lt : g.usedSize < 2^32 := by
  have h1 := sum_pageSize_le h.placed h.apart
  have h2 := h.top
  have h3 := h.geometry.beginPos
  rw [← h.used] at h1
  omega

/-- **An allocation** comes back, keeps the invariant and returns `NULL` exactly when no block of the
level asked for is free. -/
theorem Inv.alloc {size : Nat} (h0 : 1 ≤ size) (hsize : size ≤ 2^31) :
    ∃ addr g', ckDynMemAllocate g size = some (addr, g') ∧
      Inv g' (if addr = 0 then live else ⟨addr, size⟩ :: live) ∧ SameLayout g g' ∧
      (addr = 0 ↔ ∀ m, ¬ Full (freeUnits g live) (sizeLevel size) m) := by
  rcases allocate_spec h.table (freeUnits_lt g live) h0 hsize with ⟨hno, e⟩ | ⟨a, g', hfull, hf, ht, e⟩
  · exact ⟨0, g, e, by rw [if_pos rfl]; exact h, ⟨rfl, rfl, rfl, rfl, rfl, fun _ => rfl⟩,
      ⟨fun _ => hno, fun _ => rfl⟩⟩
  · have ha := full_lt (freeUnits_lt g live) hfull
    have hpos := h.geometry.beginPos
    -- the block handed out
    let b : Block := ⟨g.beginAddr + a * (4096 * 2^(sizeLevel size)), size⟩
    have hat : b.At g a := ⟨rfl, ha⟩
    have haddr : u32 (g.beginAddr + a * (4096 * 2^(sizeLevel size))) = b.addr := by
      have h1 := hat.addr_le
      have h2 := h.top
      have h3 := Nat.two_pow_pos b.level
      exact u32_of_lt (show b.addr < 2^32 by omega)
    have hne : b.addr ≠ 0 := by
      have h1 := hat.addr_le
      omega
    have hunits : b.units g.beginAddr = blk (sizeLevel size) a := hat.units
    have hplaced : ∀ c ∈ b :: live, ∃ m, Block.At g c m := by
      intro c hc
      rcases List.mem_cons.mp hc with rfl | hc
      · exact ⟨a, hat⟩
      · exact h.placed c hc
    have hapart : (b :: live).Pairwise (Block.apart g.beginAddr) := by
      refine List.pairwise_cons.mpr ⟨fun c hc u hu => ?_, h.apart⟩
      rw [hunits] at hu
      exact (hfull hu).2 c hc
    have hused : u32 (g.usedSize + b.pageSize) = ((b :: live).map Block.pageSize).sum := by
      have h1 := sum_pageSize_le hplaced hapart
      have h2 := h.top
      rw [List.map_cons, List.sum_cons, ← h.used] at h1 ⊢
      rw [Nat.add_comm g.usedSize]
      exact u32_of_lt (by omega)
    have hl := hf.sameLayout (u32 (g.usedSize + b.pageSize))
    refine ⟨b.addr, g'.setUsed (u32 (g.usedSize + b.pageSize)), by rw [e, haddr]; rfl, ?_, hl,
      ⟨fun h1 => absurd h1 hne, fun h1 => absurd hfull (h1 a)⟩⟩
    rw [if_neg hne]
    refine Inv.of_layout hl h.geometry ?_ ?_ hplaced hapart hused
    · rw [freeUnits_cons, hunits]
      exact ht.setUsed _
    · intro c hc
      rcases List.mem_cons.mp hc with rfl | hc
      · exact ⟨h0, hsize⟩
      · exact h.sizes c hc

/-- **A release** of a live block comes back with `true` and keeps the invariant: the assertion that
the bit is clear holds. -/
theorem Inv.free {b : Block} (hb : b ∈ live) :
    ∃ g', ckDynMemFree g b.addr b.size = some (true, g') ∧ Inv g' (live.erase b) ∧
      SameLayout g g' := by
  have hperm := List.perm_cons_erase hb
  have h' := h.perm hperm
  obtain ⟨m, hat⟩ := h.placed b hb
  obtain ⟨h0, hsize⟩ := h.sizes b hb
  have hlive : ∀ c ∈ live.erase b, c ∈ live := fun c hc => List.mem_of_mem_erase hc
  obtain ⟨hap, hrest⟩ := List.pairwise_cons.mp h'.apart
  have hdis : ∀ u ∈ blk b.level m, u ∉ freeUnits g live := by
    intro u hu hF
    rw [← hat.units] at hu
    exact hF.2 b hb hu
  have hunion : freeUnits g (live.erase b) = freeUnits g live ∪ blk b.level m := by
    rw [freeUnits_perm hperm, freeUnits_cons, hat.units, Set.sdiff_union_self]
    refine (Set.union_eq_left.mpr fun u hu => ?_).symm
    rw [← hat.units] at hu
    exact ⟨hat.units_lt u hu, fun c hc => hap c hc u hu⟩
  have h1 := hat.addr_le
  have h2 := h.top
  have h3 := h.geometry.inside
  have h4 := h.geometry.fits
  have h5 := h.geometry.pos
  have h6 : iomapMemoryStartAddress = 0xbf800000 := rfl
  have h7 := Nat.two_pow_pos b.level
  have haddr : g.beginAddr + m * (4096 * 2^b.level) = b.addr := hat.1.symm
  obtain ⟨g', hf, ht, e⟩ := free_spec (freeUnits_lt g live) hat.2 hdis h.table h0 hsize rfl
    h.geometry.aligned (by rw [haddr]; omega) (by rw [haddr, u32_of_lt (by omega)]; omega)
  have hl := hf.sameLayout (sub32 g.usedSize b.pageSize)
  refine ⟨_, haddr ▸ e, Inv.of_layout hl h.geometry ?_ (fun c hc => h.sizes c (hlive c hc))
    (fun c hc => h.placed c (hlive c hc)) hrest ?_, hl⟩
  · rw [hunion]
    exact ht.setUsed _
  · have h8 := h'.used
    have h9 := h.used_lt
    rw [List.map_cons, List.sum_cons] at h8
    show sub32 g.usedSize b.pageSize = _
    rw [sub32_of_le (by omega) h9]
    omega

end

/-! ## holding a block page by page -/

section
variable {g : DynMemStruct} {b : Block} {k m : Nat} (hk : b.size = 4096 * 2^k) (hat : b.At g m)
include hk

theorem Block.level_of_size : b.level = k := by
  show sizeLevel b.size = k
  rw [hk, sizeLevel_page]

theorem Block.pages_eq :
    b.pages = (List.range (2^k)).map fun j => ⟨b.addr + j * 4096, 4096⟩ := by
  rw [Block.pages, hk, Nat.mul_div_cancel_left _ (by omega)]

include hat

/-- the page `j` of a block is the unit block `j` of it -/
theorem Block.At.page {j : Nat} (hj : j < 2^k) :
    Block.At g ⟨b.addr + j * 4096, 4096⟩ (m * 2^k + j) := by
  have hlev : Block.level ⟨b.addr + j * 4096, 4096⟩ = 0 := sizeLevel_page 0
  have h1 := hat.1
  have h2 := (Nat.le_div_iff_mul_le (Nat.two_pow_pos b.level)).mp (Nat.succ_le_of_lt hat.2)
  rw [Block.level_of_size hk] at h1 h2
  have e1 : (m + 1) * 2^k = m * 2^k + 2^k := Nat.succ_mul _ _
  have e2 : m.succ * 2^k = (m + 1) * 2^k := rfl
  have e3 : m * (4096 * 2^k) = m * 2^k * 4096 := by ring
  refine ⟨?_, ?_⟩
  · rw [hlev, pow_zero, Nat.mul_one]
    show b.addr + j * 4096 = _
    omega
  · rw [hlev, pow_zero, Nat.div_one]
    omega

theorem Block.At.mem_page {j u : Nat} (hj : j < 2^k) :
    u ∈ Block.units g.beginAddr ⟨b.addr + j * 4096, 4096⟩ ↔ u = m * 2^k + j := by
  rw [(hat.page hk hj).units]
  have hlev : Block.level ⟨b.addr + j * 4096, 4096⟩ = 0 := sizeLevel_page 0
  rw [hlev, mem_blk, pow_zero, Nat.div_one]

/-- the pages of a block make up the block -/
theorem Block.At.mem_pages {u : Nat} :
    (∃ c ∈ b.pages, u ∈ c.units g.beginAddr) ↔ u ∈ b.units g.beginAddr := by
  have e1 : (m + 1) * 2^k = m * 2^k + 2^k := Nat.succ_mul _ _
  rw [hat.units, Block.level_of_size hk, mem_blk_iff, Block.pages_eq hk]
  constructor
  · rintro ⟨c, hc, hu⟩
    obtain ⟨j, hj, rfl⟩ := List.mem_map.mp hc
    have h1 := List.mem_range.mp hj
    rw [hat.mem_page hk h1] at hu
    omega
  · intro hu
    have hj : u - m * 2^k < 2^k := by omega
    refine ⟨_, List.mem_map.mpr ⟨u - m * 2^k, List.mem_range.mpr hj, rfl⟩, ?_⟩
    rw [hat.mem_page hk hj]
    omega

theorem Block.At.pages_apart : b.pages.Pairwise (Block.apart g.beginAddr) := by
  rw [Block.pages_eq hk, List.pairwise_map]
  refine List.nodup_range.pairwise_of_forall_ne fun i hi j hj hne u hui huj => ?_
  rw [hat.mem_page hk (List.mem_range.mp hi)] at hui
  rw [hat.mem_page hk (List.mem_range.mp hj)] at huj
  omega

end

theorem sum_pages {b : Block} {k : Nat} (hk : b.size = 4096 * 2^k) :
    (b.pages.map Block.pageSize).sum = b.pageSize := by
  have h1 : ∀ c ∈ b.pages.map Block.pageSize, c = 4096 := by
    intro c hc
    rw [Block.pages_eq hk, List.map_map] at hc
    obtain ⟨j, _, rfl⟩ := List.mem_map.mp hc
    show (4096 + 4095) / 4096 * 4096 = 4096
    decide
  have h2 : (b.pages.map Block.pageSize).length = 2^k := by
    rw [List.length_map, Block.pages_eq hk, List.length_map, List.length_range]
  have h3 : b.pageSize = 2^k * 4096 := by
    show (b.size + 4095) / 4096 * 4096 = _
    rw [hk]
    omega
  rw [List.eq_replicate_of_mem h1, List.sum_replicate, h2, h3]
  rfl

/-- **Holding a block page by page** keeps the invariant. -/
theorem Inv.pages {g : DynMemStruct} {live : List Block} {b : Block} {k : Nat} (h : Inv g live)
    (hb : b ∈ live) (hk : b.size = 4096 * 2^k) : Inv g (b.pages ++ live.erase b) := by
  have hperm := List.perm_cons_erase hb
  have h' := h.perm hperm
  obtain ⟨m, hat⟩ := h.placed b hb
  obtain ⟨hap, hrest⟩ := List.pairwise_cons.mp h'.apart
  have hpage : ∀ c ∈ b.pages, c.size = 4096 ∧ ∃ n, c.At g n := by
    intro c hc
    rw [Block.pages_eq hk] at hc
    obtain ⟨j, hj, rfl⟩ := List.mem_map.mp hc
    exact ⟨rfl, _, hat.page hk (List.mem_range.mp hj)⟩
  have hfree : freeUnits g (b.pages ++ live.erase b) = freeUnits g live := by
    rw [freeUnits_perm hperm, freeUnits_cons]
    ext u
    have hm := hat.mem_pages hk (u := u)
    constructor
    · intro hu
      refine ⟨⟨hu.1, fun c hc => hu.2 c (List.mem_append_right _ hc)⟩, fun hub => ?_⟩
      obtain ⟨c, hc, hcu⟩ := hm.mpr hub
      exact hu.2 c (List.mem_append_left _ hc) hcu
    · intro hu
      refine ⟨hu.1.1, fun c hc hcu => ?_⟩
      rcases List.mem_append.mp hc with hc | hc
      · exact hu.2 (hm.mp ⟨c, hc, hcu⟩)
      · exact hu.1.2 c hc hcu
  refine ⟨h.geometry, hfree ▸ h.table, ?_, ?_, ?_, ?_⟩
  · intro c hc
    rcases List.mem_append.mp hc with hc | hc
    · rw [(hpage c hc).1]
      omega
    · exact h.sizes c (List.mem_of_mem_erase hc)
  · intro c hc
    rcases List.mem_append.mp hc with hc | hc
    · exact (hpage c hc).2
    · exact h.placed c (List.mem_of_mem_erase hc)
  · refine List.pairwise_append.mpr ⟨hat.pages_apart hk, hrest, fun c hc d hd u hu => ?_⟩
    exact hap d hd u ((hat.mem_pages hk).mp ⟨c, hc, hu⟩)
  · have h1 := h'.used
    rw [List.map_cons, List.sum_cons] at h1
    rw [List.map_append, List.sum_append, sum_pages hk, h1]

/-! ## whole runs -/

/-- the state that initialization leaves -/
theorem inv_init (mem : Nat → BitVec 8) {dynMemSize : Nat}
    (h1 : dynMemBuddyUnitSize < dynMemSize)
    (h2 : dynMemSize ≤ iomapMemoryStartAddress - dynMemoryStartAddress) :
    Inv (ckDynMemInitialize mem dynMemSize) [] := by
  obtain ⟨N, hgeo, htab, hused⟩ := initialize_spec mem h1 h2
  have hN := hgeo.count
  subst hN
  have hfree : freeUnits (ckDynMemInitialize mem dynMemSize) []
      = {u | u < (ckDynMemInitialize mem dynMemSize).countOfUnitBlock} := by
    ext u
    exact ⟨fun hu => hu.1, fun hu => ⟨hu, fun b hb => absurd hb List.not_mem_nil⟩⟩
  refine ⟨hgeo, hfree ▸ htab, ?_, ?_, List.Pairwise.nil, hused⟩
  · exact fun b hb => absurd hb List.not_mem_nil
  · exact fun b hb => absurd hb List.not_mem_nil

/-- **Every run keeps the invariant** and the layout of its first state. -/
theorem Run.inv {g0 g : DynMemStruct} {live : List Block} (h0 : Inv g0 []) (h : Run g0 g live) :
    Inv g live ∧ SameLayout g0 g := by
  induction h with
  | init => exact ⟨h0, SameLayout.refl g0⟩
  | alloc _ h1 h2 e ih =>
    obtain ⟨addr', g'', e', hinv, hl, _⟩ := ih.1.alloc h1 h2
    obtain ⟨rfl, rfl⟩ := Prod.mk.inj (Option.some.inj (e.symm.trans e'))
    exact ⟨hinv, ih.2.trans hl⟩
  | free _ hb e ih =>
    obtain ⟨g'', e', hinv, hl⟩ := ih.1.free hb
    obtain ⟨rfl, rfl⟩ := Prod.mk.inj (Option.some.inj (e.symm.trans e'))
    exact ⟨hinv, ih.2.trans hl⟩
  | pages _ hb hk ih => exact ⟨ih.1.pages hb hk, ih.2⟩

end Clubcos
