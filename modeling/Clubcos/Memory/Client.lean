import Mathlib.Order.CompletePartialOrder
import Clubcos.Memory.Layout
import Clubcos.Memory.Request

/-!
# The bytes of the blocks

The bitmaps and the blocks handed out are bytes of one memory.  The allocator writes to the pages of the
metadata only, and the holders of blocks write to their blocks only, which lie below:

* `LowSame`       no byte below the metadata is different;
* `allocate_below`, `free_below`   what a call of the allocator leaves alone;
* `Inv.write`       what a write into a block leaves alone;
* `ClientRun`       allocations, releases and writes into the blocks, in any order;
* `heap_isolated`   **the allocator and the holders of blocks do not disturb each other**.
-/

set_option linter.unusedVariables false

namespace Clubcos
open Word Dyadic

/-- the bitmaps lie in the pages of the metadata or behind them -/
def Above (g : DynMemStruct) : Prop :=
  ∀ i < g.bitmapLevel, dynMemoryMetadataAddr ≤ (g.arBitmap i).bits

def LowSame (g g' : DynMemStruct) : Prop := ∀ a < dynMemoryMetadataAddr, g'.mem a = g.mem a

theorem LowSame.refl (g : DynMemStruct) : LowSame g g := fun _ _ => rfl

theorem LowSame.trans {g g' g'' : DynMemStruct} (h : LowSame g g') (h' : LowSame g' g'') :
    LowSame g g'' := fun a ha => (h' a ha).trans (h a ha)

theorem Above.frame {g g' : DynMemStruct} (h : Above g) (hf : Frame g g') : Above g' := by
  intro i hi
  rw [hf.bits]
  exact h i (hf.bitmapLevel ▸ hi)

theorem Above.layout {g g' : DynMemStruct} (h : Above g) (hl : SameLayout g g') : Above g' :=
  Above.frame (g := g.setUsed g'.usedSize) h hl

/-- a byte written behind the start of a bitmap -/
theorem setMem_below {g : DynMemStruct} (h : Above g) {i : Nat} (hi : i < g.bitmapLevel) {p : Nat}
    (hp : (g.arBitmap i).bits ≤ p) (v : BitVec 8) : LowSame g (g.setMem p v) := by
  intro a ha
  have h1 := h i hi
  have hne : a ≠ p := by omega
  show Function.update g.mem p v a = g.mem a
  rw [Function.update_of_ne hne]

theorem set0_below {g : DynMemStruct} (h : Above g) {i : Nat} (hi : i < g.bitmapLevel) (b : Nat) :
    LowSame g (bitmapBitSet0 g i b) :=
  setMem_below h hi (Nat.le_add_right _ _) _

theorem join_below {g : DynMemStruct} (h : Above g) {i : Nat} (hi : i < g.bitmapLevel) (b : Nat) :
    LowSame g (g.join i b) := by
  have f := frame_set0 g i (b ^^^ 1)
  have h2 := set0_below (h.frame f) (f.bitmapLevel ▸ hi) b
  exact fun a ha => ((set0_below h hi (b ^^^ 1)).trans h2) a ha

theorem mark_below {g : DynMemStruct} (h : Above g) {i : Nat} (hi : i < g.bitmapLevel) (b : Nat) :
    LowSame g (g.mark i b) :=
  setMem_below h hi (Nat.le_add_right _ _) _

/-! ## the calls -/

theorem splitLoop_below (start n : Nat) : ∀ (block : Nat) (g : DynMemStruct), Above g →
    start + n ≤ g.bitmapLevel → LowSame g (splitLoop start n block g).2 := by
  induction n with
  | zero => exact fun _ g _ _ => LowSame.refl g
  | succ n ih =>
    intro block g h hn
    have hf := frame_mark g (start + n) (block * 2 + 1)
    have h1 := mark_below h (show start + n < g.bitmapLevel by omega) (block * 2 + 1)
    rw [splitLoop_succ]
    exact h1.trans (ih (block * 2) _ (h.frame hf) (by rw [hf.bitmapLevel]; omega))

theorem mergeLoop_below (n : Nat) : ∀ (now block : Nat) (g : DynMemStruct), Above g →
    now < g.bitmapLevel → LowSame g (mergeLoop n now block g) := by
  induction n with
  | zero => exact fun _ _ g _ _ => LowSame.refl g
  | succ n ih =>
    intro now block g h hnow
    rw [mergeLoop_succ]
    by_cases hbud : bitmapGetBit g now (block ^^^ 1) = true
    · rw [if_pos hbud]
      by_cases htop : g.bitmapLevel ≤ now + 1
      · rw [if_pos htop]
        exact LowSame.refl g
      · rw [if_neg htop]
        -- the two halves are unmarked, then the block above is marked
        have f1 := frame_join g now block
        have f2 := f1.trans (frame_mark _ (now + 1) (block / 2))
        have hnext : now + 1 < g.bitmapLevel := by omega
        have h1 := join_below h hnow block
        have h2 := mark_below (h.frame f1) (f1.bitmapLevel.symm ▸ hnext) (block / 2)
        exact (h1.trans h2).trans (ih (now + 1) (block / 2) _ (h.frame f2) (by rw [f2.bitmapLevel]; exact hnext))
    · rw [if_neg hbud]
      exact LowSame.refl g

/-- the scan does not go back -/
theorem memchr_ge (mem : Nat → BitVec 8) (ecx : Nat) : ∀ edi, edi ≤ memchrNotWithoutSize mem (ecx + 1) edi := by
  induction ecx with
  | zero =>
    intro edi
    show edi ≤ if mem edi = 0#8 then edi + 1 - 1 else edi
    split <;> omega
  | succ ecx ih =>
    intro edi
    show edi ≤ if mem edi = 0#8 then memchrNotWithoutSize mem (ecx + 1) (edi + 1) else edi
    split
    · have := ih (edi + 1)
      omega
    · exact Nat.le_refl edi

/-- one block taken out of a bitmap and split -/
theorem take_split_below {g : DynMemStruct} {start now : Nat} (h : Above g) (hs : start ≤ now)
    (hnow : now < g.bitmapLevel) {p : Nat} (hp : (g.arBitmap now).bits ≤ p) (v : BitVec 8) (c block : Nat) :
    LowSame g (splitLoop start (now - start) block (((g.setMem p v).touch now block).setCount now c)).2 := by
  have f := ((frame_setMem g p v).trans (frame_touch _ now block)).trans (frame_setCount _ now c)
  apply (setMem_below h hnow hp v).trans
  exact splitLoop_below start (now - start) block _ (h.frame f) (by rw [f.bitmapLevel]; omega)

theorem takeBlock_below {g g' : DynMemStruct} {start size now addr : Nat} (h : Above g) (hs : start ≤ now)
    (hnow : now < g.bitmapLevel) (e : takeBlock g start size now = some (addr, g')) : LowSame g g' := by
  have hp := memchr_ge g.mem (0xffffffff - 1) (g.arBitmap now).bits
  unfold takeBlock at e
  simp only [] at e
  split at e
  · cases e
  · cases e
    exact take_split_below h hs hnow hp _ _ _

/-- **An allocation** writes to the metadata only. -/
theorem allocate_below {g g' : DynMemStruct} {size addr : Nat} (h : Above g)
    (e : ckDynMemAllocate g size = some (addr, g')) : LowSame g g' := by
  unfold ckDynMemAllocate at e
  by_cases h0 : size = 0
  · rw [if_pos h0] at e
    cases e
    exact LowSame.refl g
  · rw [if_neg h0] at e
    simp only [] at e
    split at e
    · cases e
    · next idx _ =>
      split at e
      · cases e
        exact LowSame.refl g
      · rcases allocLoop_spec g idx (ceilUint32 size dynMemBuddyUnitSize) (g.bitmapLevel - idx) idx with
          ⟨e1, _⟩ | ⟨j, hj1, hj2, _, e1⟩
        · rw [e1] at e
          cases e
          exact LowSame.refl g
        · rw [e1] at e
          exact takeBlock_below h hj1 (by omega) e

/-- **A release** writes to the metadata only. -/
theorem free_below {g g' : DynMemStruct} {addr size : Nat} {ret : Bool} (h : Above g)
    (e : ckDynMemFree g addr size = some (ret, g')) : LowSame g g' := by
  unfold ckDynMemFree at e
  split at e
  · cases e
    exact LowSame.refl g
  · split at e
    · cases e
      exact LowSame.refl g
    · simp only [] at e
      split at e
      · cases e
      · next idx _ =>
        split at e
        · cases e
          exact LowSame.refl g
        · next hlev =>
          split at e
          · cases e
          · cases e
            have hidx : idx < g.bitmapLevel := by omega
            have f := frame_mark g idx (sub32 (addr / dynMemBuddyUnitSize * dynMemBuddyUnitSize) g.beginAddr /
              u32 (dynMemBuddyUnitSize <<< idx))
            exact (mark_below h hidx _).trans (mergeLoop_below _ _ _ _ (h.frame f) (f.bitmapLevel ▸ hidx))

/-! ## writes into the blocks -/

/-- a bit of a bitmap is no bit of a byte below the metadata -/
theorem bit_setMem_below {g : DynMemStruct} (h : Above g) {a : Nat} (ha : a < dynMemoryMetadataAddr)
    (v : BitVec 8) {i : Nat} (hi : i < g.bitmapLevel) (b : Nat) : (g.setMem a v).bit i b = g.bit i b := by
  have h1 := h i hi
  have hne : (g.arBitmap i).bits + b / 8 ≠ a := by omega
  show (Function.update g.mem a v ((g.arBitmap i).bits + b / 8)).getLsbD (b % 8) = _
  rw [Function.update_of_ne hne]
  rfl

theorem Tab.write {g : DynMemStruct} {N : Nat} {T : Nat → Nat → Prop} (h : Tab g N T) (hab : Above g)
    {a : Nat} (ha : a < dynMemoryMetadataAddr) (v : BitVec 8) : Tab (g.setMem a v) N T := by
  refine ⟨h.lt, h.level, h.rows.frame (frame_setMem g a v), h.inside, fun i hi b hb => ?_, fun i hi => ?_⟩
  · rw [bit_setMem_below hab ha v hi b]
    exact h.bit_iff i hi b hb
  · have e : (g.setMem a v).row N i = g.row N i :=
      Finset.filter_congr fun b _ => by rw [bit_setMem_below hab ha v hi b]
    rw [e]
    exact h.count i hi

/-- **A write below the metadata** keeps the invariant of the allocator. -/
theorem Inv.write {g : DynMemStruct} {live : List Block} (h : Inv g live) (hab : Above g) {a : Nat}
    (ha : a < dynMemoryMetadataAddr) (v : BitVec 8) : Inv (g.setMem a v) live :=
  ⟨h.geometry.frame (frame_setMem g a v), h.table.write hab ha v, h.sizes, h.placed, h.apart, h.used⟩

/-- the bytes of the power-of-two block that `b` is served with -/
def Block.bytes (b : Block) : Set Nat := {a | b.addr ≤ a ∧ a < b.addr + 4096 * 2^b.level}

/-- a block lies below the metadata -/
theorem Inv.bytes_lt {g : DynMemStruct} {live : List Block} (h : Inv g live) {b : Block} (hb : b ∈ live)
    {a : Nat} (ha : a ∈ b.bytes) : a < dynMemoryMetadataAddr := by
  obtain ⟨m, hat⟩ := h.placed b hb
  have h1 := hat.addr_le
  have h2 := h.geometry.inside
  have h3 := h.geometry.fits
  have h4 := h.geometry.pos
  have h5 : dynMemoryMetadataAddr = 0xfffcf000 := rfl
  have h6 : iomapMemoryStartAddress = 0xbf800000 := rfl
  have h7 := ha.2
  omega

/-- two live blocks have no byte in common -/
theorem Inv.bytes_apart {g : DynMemStruct} {live : List Block} (h : Inv g live) :
    live.Pairwise fun b c => Disjoint b.bytes c.bytes := by
  refine h.apart.imp_of_mem fun {b c} hb hc hap => ?_
  obtain ⟨m, hm⟩ := h.placed b hb
  rw [Set.disjoint_left]
  intro a hab hac
  have h1 := hm.addr_le
  -- the unit block that the byte lies in
  have hal := h.geometry.aligned
  have hunit : ∀ d : Block, (∃ n, d.At g n) → a ∈ d.bytes → (a - g.beginAddr) / 4096 ∈ d.units g.beginAddr := by
    rintro d ⟨n, hn⟩ had
    have e1 : n * (4096 * 2^d.level) = 4096 * (n * 2^d.level) := by ring
    have h2 := hn.1
    have h3 := had.1
    have h4 := had.2
    show d.addr ≤ _ ∧ _ < d.addr + _
    omega
  exact hap _ (hunit b (h.placed b hb) hab) (hunit c (h.placed c hc) hac)

/-! ## whole runs -/

/-- Allocations, releases of live blocks and writes by the holder of a live block, in any order.  `img` is
the memory as the holders wrote it. -/
inductive ClientRun (g0 : DynMemStruct) : DynMemStruct → List Block → (Nat → BitVec 8) → Prop
  | init : ClientRun g0 g0 [] g0.mem
  | alloc {g g' live img size addr} : ClientRun g0 g live img → 1 ≤ size → size ≤ 2^31 →
      ckDynMemAllocate g size = some (addr, g') →
      ClientRun g0 g' (if addr = 0 then live else ⟨addr, size⟩ :: live) img
  | free {g g' live img b ret} : ClientRun g0 g live img → b ∈ live →
      ckDynMemFree g b.addr b.size = some (ret, g') → ClientRun g0 g' (live.erase b) img
  | write {g live img b a v} : ClientRun g0 g live img → b ∈ live → a ∈ b.bytes →
      ClientRun g0 (g.setMem a v) live (Function.update img a v)

/-- what holds after every step of a run -/
structure Isolated (g0 g : DynMemStruct) (live : List Block) (img : Nat → BitVec 8) : Prop where
  inv : Inv g live
  layout : SameLayout g0 g
  below : ∀ a < dynMemoryMetadataAddr, g.mem a = img a

theorem ClientRun.isolated {g0 g : DynMemStruct} {live : List Block} {img : Nat → BitVec 8}
    (h0 : Inv g0 []) (hab : Above g0) (h : ClientRun g0 g live img) : Isolated g0 g live img := by
  induction h with
  | init => exact ⟨h0, SameLayout.refl g0, fun _ _ => rfl⟩
  | alloc _ h1 h2 e ih =>
    obtain ⟨addr, g', e', hinv, hl, _⟩ := ih.inv.alloc h1 h2
    obtain ⟨rfl, rfl⟩ := Prod.mk.inj (Option.some.inj (e.symm.trans e'))
    have hsame := allocate_below (hab.layout ih.layout) e
    exact ⟨hinv, ih.layout.trans hl, fun a ha => (hsame a ha).trans (ih.below a ha)⟩
  | free _ hb e ih =>
    obtain ⟨g', e', hinv, hl⟩ := ih.inv.free hb
    obtain ⟨rfl, rfl⟩ := Prod.mk.inj (Option.some.inj (e.symm.trans e'))
    have hsame := free_below (hab.layout ih.layout) e
    exact ⟨hinv, ih.layout.trans hl, fun a ha => (hsame a ha).trans (ih.below a ha)⟩
  | @write g live img b a v _ hb ha ih =>
    have hlt := ih.inv.bytes_lt hb ha
    have hl : SameLayout g (g.setMem a v) := frame_setMem g a v
    refine ⟨ih.inv.write (hab.layout ih.layout) hlt v, ih.layout.trans hl, fun c hc => ?_⟩
    show Function.update g.mem a v c = Function.update img a v c
    by_cases hca : c = a
    · rw [hca, Function.update_self, Function.update_self]
    · rw [Function.update_of_ne hca, Function.update_of_ne hca]
      exact ih.below c hc

/-- **The heap keeps its holders apart**: whatever allocations, releases and writes into live blocks come in
whatever order, the blocks and the bitmaps are as safe as without the writes, every byte of a live block is the
last one its holder wrote there, and two live blocks share none. -/
theorem heap_isolated (mem : Nat → BitVec 8) {dynMemSize : Nat} (h1 : dynMemBuddyUnitSize < dynMemSize)
    (h2 : dynMemSize ≤ iomapMemoryStartAddress - dynMemoryStartAddress)
    {g : DynMemStruct} {live : List Block} {img : Nat → BitVec 8}
    (h : ClientRun (ckDynMemInitialize mem dynMemSize) g live img) :
    BuddySafe g live ∧ (∀ b ∈ live, ∀ a ∈ b.bytes, g.mem a = img a) ∧
      (live.Pairwise fun b c => Disjoint b.bytes c.bytes) ∧
      (∀ size, 1 ≤ size → size ≤ 2^31 → ∃ r, ckDynMemAllocate g size = some r) ∧
      ∀ b ∈ live, ∃ g', ckDynMemFree g b.addr b.size = some (true, g') := by
  have hi := h.isolated (inv_init mem h1 h2) (initialize_bits mem h1 h2)
  refine ⟨hi.inv.safe, fun b hb a ha => hi.below a (hi.inv.bytes_lt hb ha), hi.inv.bytes_apart, ?_, ?_⟩
  · intro size h0 hs
    obtain ⟨addr, g', e, _⟩ := hi.inv.alloc h0 hs
    exact ⟨_, e⟩
  · intro b hb
    obtain ⟨g', e, _⟩ := hi.inv.free hb
    exact ⟨g', e⟩

/-- a page allocated in 23 MiB of memory -/
theorem exists_client_page : ∃ g addr img, ClientRun firstMemory g [⟨addr, 4096⟩] img := by
  obtain ⟨addr, g, e, _, _, hnull⟩ := firstMemory_inv.alloc (show 1 ≤ 4096 by omega) (by omega)
  have hne : addr ≠ 0 := by
    intro h0
    refine hnull.mp h0 0 fun u hu => ?_
    have hlev : sizeLevel 4096 = 0 := sizeLevel_page 0
    have hpos := firstMemory_inv.geometry.pos
    rw [hlev, mem_blk, pow_zero, Nat.div_one] at hu
    exact ⟨by omega, List.forall_mem_nil _⟩
  have hrun := ClientRun.alloc ClientRun.init (by omega) (by omega) e
  rw [if_neg hne] at hrun
  exact ⟨g, addr, _, hrun⟩

/-- its first byte written and read -/
theorem heap_isolated_page : ∃ g addr, BuddySafe g [⟨addr, 4096⟩] ∧ g.mem addr = 7#8 := by
  obtain ⟨g, addr, img, hrun⟩ := exists_client_page
  have hmem : addr ∈ Block.bytes ⟨addr, 4096⟩ :=
    ⟨Nat.le_refl _, Nat.lt_add_of_pos_right (Nat.mul_pos (by omega) (Nat.two_pow_pos _))⟩
  obtain ⟨hsafe, hread, _⟩ := heap_isolated (fun _ => 0#8) (by decide) (by decide)
    (hrun.write (v := 7#8) List.mem_cons_self hmem)
  refine ⟨_, addr, hsafe, ?_⟩
  rw [hread _ List.mem_cons_self addr hmem, Function.update_self]

end Clubcos
