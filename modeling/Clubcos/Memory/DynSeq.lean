import Clubcos.Memory.Client

/-!
# coshell_cmd.c: the memory test `testdynseq`

The command fills every level of the allocator in turn: it allocates as many blocks as the level can have,
writes and compares every word of each, and releases the blocks by their addresses, which it computes.

* `ckCoshellCmdTestDynSeq`   the command: what it reports and the state that it leaves;
* `testWords_spec`           the words written are the words read, and no other byte changes;
* `allocTest_spec`           what the loop over one level can end with;
* `freeAll_spec`             the addresses computed are those of the blocks of a full level;
* `testDynSeq_spec`          **the test completes iff nothing is allocated**, and else it takes all memory.
-/

set_option linter.unusedVariables false

namespace Clubcos
open Word Dyadic

/-- the report that the command ends with -/
inductive DynSeqEnd where
  | allocationFail (level size allocation : Nat)
  | compareFail (level size allocation compare : Nat)
  | completed
deriving DecidableEq

/-- a word is four bytes, the lowest first -/
def storeWord (g : DynMemStruct) (a v : Nat) : DynMemStruct :=
  (((g.setMem a (BitVec.ofNat 8 v)).setMem (a+1) (BitVec.ofNat 8 (v / 256))).setMem (a+2)
    (BitVec.ofNat 8 (v / 65536))).setMem (a+3) (BitVec.ofNat 8 (v / 16777216))

def loadWord (g : DynMemStruct) (a : Nat) : Nat :=
  (g.mem a).toNat + 256 * (g.mem (a+1)).toNat + 65536 * (g.mem (a+2)).toNat + 16777216 * (g.mem (a+3)).toNat

/-- `mem[k] = k`, where `n` words are left -/
def fillWords (mem : Nat) : (n k : Nat) → DynMemStruct → DynMemStruct
  | 0, _, g => g
  | n+1, k, g => fillWords mem n (k+1) (storeWord g (mem + 4*k) k)

/-- the first `k` with `mem[k] != k`, where `n` words are left -/
def compareWords (mem : Nat) (g : DynMemStruct) : (n k : Nat) → Option Nat
  | 0, _ => none
  | n+1, k => if loadWord g (mem + 4*k) ≠ k then some k else compareWords mem g n (k+1)

/-- the loop that allocates the blocks of the level `i`, where `n` are left; a report ends the command -/
def allocTest (i size : Nat) : (n j : Nat) → DynMemStruct → Option (Option DynSeqEnd × DynMemStruct)
  | 0, _, g => some (none, g)
  | n+1, j, g =>
    match ckDynMemAllocate g size with
    | none => none
    | some (mem, g) =>
      if mem = 0 then some (some (.allocationFail i size j), g)
      else
        let g := fillWords mem (size / 4) 0 g
        match compareWords mem g (size / 4) 0 with
        | some k => some (some (.compareFail i size j k), g)
        | none => allocTest i size n (j+1) g

/-- the loop that releases them, where `n` are left -/
def freeAll (size : Nat) : (n j : Nat) → DynMemStruct → Option DynMemStruct
  | 0, _, g => some g
  | n+1, j, g => (ckDynMemFree g (u32 (g.beginAddr + size * j)) size).bind fun r => freeAll size n (j+1) r.2

/-- the loop over the levels, where `n` are left -/
def levelTest : (n i : Nat) → DynMemStruct → Option (DynSeqEnd × DynMemStruct)
  | 0, _, g => some (.completed, g)
  | n+1, i, g =>
    let size := u32 (dynMemBuddyUnitSize <<< i)
    match allocTest i size (g.countOfUnitBlock >>> i) 0 g with
    | none => none
    | some (some e, g) => some (e, g)
    | some (none, g) => (freeAll size (g.countOfUnitBlock >>> i) 0 g).bind (levelTest n (i+1))

def ckCoshellCmdTestDynSeq (g : DynMemStruct) : Option (DynSeqEnd × DynMemStruct) :=
  levelTest g.bitmapLevel 0 g

/-! ## the words -/

theorem storeWord_mem (g : DynMemStruct) (a v c : Nat) :
    (storeWord g a v).mem c = if c = a+3 then BitVec.ofNat 8 (v / 16777216)
      else if c = a+2 then BitVec.ofNat 8 (v / 65536)
      else if c = a+1 then BitVec.ofNat 8 (v / 256)
      else if c = a then BitVec.ofNat 8 v else g.mem c := by
  show Function.update (Function.update (Function.update (Function.update g.mem a _) (a+1) _) (a+2) _) (a+3) _ c = _
  simp only [Function.update_apply]

theorem storeWord_other {g : DynMemStruct} {a v c : Nat} (h : c < a ∨ a + 4 ≤ c) :
    (storeWord g a v).mem c = g.mem c := by
  rw [storeWord_mem, if_neg (by omega), if_neg (by omega), if_neg (by omega), if_neg (by omega)]

theorem loadWord_congr {g g' : DynMemStruct} {a : Nat} (h : ∀ c, a ≤ c → c < a + 4 → g'.mem c = g.mem c) :
    loadWord g' a = loadWord g a := by
  unfold loadWord
  rw [h a (by omega) (by omega), h (a+1) (by omega) (by omega), h (a+2) (by omega) (by omega),
    h (a+3) (by omega) (by omega)]

theorem loadWord_store (g : DynMemStruct) (a : Nat) {v : Nat} (hv : v < 2^32) :
    loadWord (storeWord g a v) a = v := by
  unfold loadWord
  simp only [storeWord_mem, BitVec.toNat_ofNat, Nat.reduceEqDiff, Nat.add_right_cancel_iff, if_true, if_false,
    Nat.left_eq_add, OfNat.ofNat_ne_zero, one_ne_zero]
  omega

/-- the state with the words `k` to `k+n-1` of the block at `mem` filled -/
structure Filled (mem n k : Nat) (g g' : DynMemStruct) : Prop where
  frame : Frame g g'
  counts : g'.arBitmap = g.arBitmap
  other : ∀ c, c < mem + 4*k ∨ mem + 4*(k+n) ≤ c → g'.mem c = g.mem c
  word : ∀ l, k ≤ l → l < k+n → loadWord g' (mem + 4*l) = l

theorem fillWords_spec (mem n : Nat) : ∀ (k : Nat) (g : DynMemStruct), k + n ≤ 2^32 →
    Filled mem n k g (fillWords mem n k g) := by
  induction n with
  | zero => exact fun k g _ => ⟨Frame.refl g, rfl, fun _ _ => rfl, fun l h1 h2 => by omega⟩
  | succ n ih =>
    intro k g hk
    have h := ih (k+1) (storeWord g (mem + 4*k) k) (by omega)
    have hf : Frame g (storeWord g (mem + 4*k) k) := ⟨rfl, rfl, rfl, rfl, rfl, fun _ => rfl⟩
    refine ⟨hf.trans h.frame, h.counts, fun c hc => ?_, fun l h1 h2 => ?_⟩
    · exact (h.other c (by omega)).trans (storeWord_other (by omega))
    · by_cases hl : l = k
      · subst hl
        have e := loadWord_congr (a := mem + 4*l) fun c hc1 hc2 => h.other c (by omega)
        exact e.trans (loadWord_store g (mem + 4*l) (by omega))
      · exact h.word l (by omega) (by omega)

theorem compareWords_none (mem n : Nat) (g : DynMemStruct) : ∀ k,
    (∀ l, k ≤ l → l < k+n → loadWord g (mem + 4*l) = l) → compareWords mem g n k = none := by
  induction n with
  | zero => exact fun _ _ => rfl
  | succ n ih =>
    intro k h
    have h1 := h k (Nat.le_refl k) (by omega)
    show (if loadWord g (mem + 4*k) ≠ k then _ else _) = _
    rw [if_neg (not_not_intro h1)]
    exact ih (k+1) fun l h2 h3 => h l (by omega) (by omega)

/-- bytes below the metadata do not matter for the allocator -/
theorem Inv.fill_mem {g g' : DynMemStruct} {live : List Block} (h : Inv g live) (hab : Above g)
    (hf : Frame g g') (hc : g'.arBitmap = g.arBitmap)
    (hm : ∀ a, dynMemoryMetadataAddr ≤ a → g'.mem a = g.mem a) : Inv g' live := by
  have hbit : ∀ i < g.bitmapLevel, ∀ b, g'.bit i b = g.bit i b := by
    intro i hi b
    have h1 := hab i hi
    show (g'.mem ((g'.arBitmap i).bits + b / 8)).getLsbD (b % 8) = _
    rw [hf.bits, hm _ (by omega)]
    rfl
  refine Inv.of_layout (g := g) ⟨hf.1, hf.2, rfl, hf.4, hf.5, hf.6⟩ h.geometry ?_ h.sizes h.placed h.apart
    (hf.usedSize.trans h.used)
  refine ⟨h.table.lt, hf.bitmapLevel.trans h.table.level, h.table.rows.frame hf, h.table.inside, ?_, ?_⟩
  · intro i hi b hb
    rw [hf.bitmapLevel] at hi
    rw [hbit i hi b]
    exact h.table.bit_iff i hi b hb
  · intro i hi
    rw [hf.bitmapLevel] at hi
    have e : g'.row g.countOfUnitBlock i = g.row g.countOfUnitBlock i :=
      Finset.filter_congr fun b _ => by rw [hbit i hi b]
    rw [hc, e]
    exact h.table.count i hi

/-- **The test of one block**: the comparison succeeds, and only bytes of the block are different. -/
theorem testWords_spec {g : DynMemStruct} {live : List Block} {b : Block} {i : Nat} (h : Inv g live)
    (hab : Above g) (hb : b ∈ live) (hsize : b.size = 4096 * 2^i) :
    compareWords b.addr (fillWords b.addr (b.size / 4) 0 g) (b.size / 4) 0 = none ∧
      Inv (fillWords b.addr (b.size / 4) 0 g) live ∧ SameLayout g (fillWords b.addr (b.size / 4) 0 g) ∧
      ∀ a, a ∉ b.bytes → (fillWords b.addr (b.size / 4) 0 g).mem a = g.mem a := by
  have hlev := Block.level_of_size hsize
  have hle := (h.sizes b hb).2
  have hf := fillWords_spec b.addr (b.size / 4) 0 g (by omega)
  have hother : ∀ a, a ∉ b.bytes → (fillWords b.addr (b.size / 4) 0 g).mem a = g.mem a := by
    intro a ha
    have h1 : ¬(b.addr ≤ a ∧ a < b.addr + 4096 * 2^b.level) := ha
    rw [hlev, ← hsize] at h1
    exact hf.other a (by omega)
  refine ⟨compareWords_none _ _ _ 0 hf.word, ?_, ⟨hf.frame.1, hf.frame.2, rfl, hf.frame.4, hf.frame.5, hf.frame.6⟩,
    hother⟩
  refine h.fill_mem hab hf.frame hf.counts fun a ha => hother a fun hab' => ?_
  have h1 := h.bytes_lt hb hab'
  omega

/-! ## one level -/

/-- what the loop over `n` blocks leaves behind: `taken` are the blocks that it got -/
structure Tested (i size n j : Nat) (g g' : DynMemStruct) (live taken : List Block)
    (r : Option DynSeqEnd) : Prop where
  inv : Inv g' (taken ++ live)
  layout : SameLayout g g'
  sizes : ∀ b ∈ taken, b.size = size
  other : ∀ b ∈ live, ∀ a ∈ b.bytes, g'.mem a = g.mem a
  ends : r = none ∧ taken.length = n ∨ r = some (.allocationFail i size (j + taken.length)) ∧ taken.length < n ∧
    ∀ c, ¬ Full (freeUnits g' (taken ++ live)) i c

/-- **The loop over one level** gets all its blocks, or it stops at the first one that there is no room for;
the blocks that were live before keep their bytes. -/
theorem allocTest_spec {i : Nat} (hi : 4096 * 2^i ≤ 2^31) (n : Nat) : ∀ (j : Nat) (g : DynMemStruct)
    (live : List Block), Inv g live → Above g → ∃ r g' taken,
      allocTest i (4096 * 2^i) n j g = some (r, g') ∧ Tested i (4096 * 2^i) n j g g' live taken r := by
  induction n with
  | zero =>
    intro j g live h _
    exact ⟨none, g, [], rfl, h, SameLayout.refl g, List.forall_mem_nil _, fun _ _ _ _ => rfl, Or.inl ⟨rfl, rfl⟩⟩
  | succ n ih =>
    intro j g live h hab
    have hpos : 1 ≤ 4096 * 2^i := Nat.mul_pos (by omega) (Nat.two_pow_pos i)
    obtain ⟨addr, g1, e, hinv, hl, hnull⟩ := h.alloc hpos hi
    have hlow := allocate_below hab e
    unfold allocTest
    rw [e]
    simp only []
    by_cases h0 : addr = 0
    · rw [if_pos h0] at hinv ⊢
      refine ⟨_, g1, [], rfl, hinv, hl, List.forall_mem_nil _, fun b hb a ha => ?_, ?_⟩
      · exact hlow a (h.bytes_lt hb ha)
      · refine Or.inr ⟨rfl, Nat.succ_pos n, fun c => ?_⟩
        have h1 := hnull.mp h0 c
        rw [sizeLevel_page] at h1
        rwa [List.nil_append, hl.freeUnits_eq]
    · rw [if_neg h0] at hinv ⊢
      -- the block is written and compared, and the rest of the loop runs with it live
      let b : Block := ⟨addr, 4096 * 2^i⟩
      obtain ⟨hcmp, hinv2, hl2, hother⟩ := testWords_spec (b := b) hinv (hab.layout hl) List.mem_cons_self rfl
      rw [hcmp]
      simp only []
      have hab2 := (hab.layout hl).layout hl2
      obtain ⟨r, g', taken, e', ht⟩ := ih (j+1) _ (b :: live) hinv2 hab2
      have hlist : (taken ++ [b]) ++ live = taken ++ b :: live := by simp
      refine ⟨r, g', taken ++ [b], e', hlist ▸ ht.inv, (hl.trans hl2).trans ht.layout, ?_, ?_, ?_⟩
      · intro c hc
        rcases List.mem_append.mp hc with hc | hc
        · exact ht.sizes c hc
        · rw [List.mem_singleton.mp hc]
      · intro c hc a ha
        have hdis := (List.pairwise_cons.mp hinv.bytes_apart).1 c hc
        have hnot : a ∉ b.bytes := fun hab' => Set.disjoint_left.mp hdis hab' ha
        rw [ht.other c (List.mem_cons_of_mem _ hc) a ha, hother a hnot, hlow a (h.bytes_lt hc ha)]
      · rw [List.length_append, List.length_singleton, hlist]
        rcases ht.ends with ⟨h1, h2⟩ | ⟨h1, h2, h3⟩
        · exact Or.inl ⟨h1, by omega⟩
        · refine Or.inr ⟨?_, by omega, h3⟩
          rw [h1, show j + 1 + taken.length = j + (taken.length + 1) by omega]

/-- a level that is full has a live block at each of its places -/
theorem Inv.full_level {g : DynMemStruct} {live : List Block} {i : Nat} (h : Inv g live)
    (hsize : ∀ b ∈ live, b.size = 4096 * 2^i) (hlen : live.length = g.countOfUnitBlock / 2^i) {m : Nat}
    (hm : m < g.countOfUnitBlock / 2^i) : ⟨g.beginAddr + 4096 * 2^i * m, 4096 * 2^i⟩ ∈ live := by
  by_contra hnot
  have hlev : ∀ b ∈ live, b.level = i := fun b hb => Block.level_of_size (hsize b hb)
  refine h.none_free hlev (le_of_eq hlen.symm) m fun u hu => ⟨full_all_iff.mpr hm hu, fun b hb hub => ?_⟩
  obtain ⟨n, hn⟩ := h.placed b hb
  rw [hn.units, hlev b hb] at hub
  obtain rfl := eq_of_meet hub hu
  have haddr : b.addr = g.beginAddr + 4096 * 2^i * n := by rw [hn.1, hlev b hb, Nat.mul_comm n]
  have hb' : b = ⟨g.beginAddr + 4096 * 2^i * n, 4096 * 2^i⟩ := by
    rw [← haddr, ← hsize b hb]
  exact hnot (hb' ▸ hb)

/-- **The loop that releases** finds a live block at every address that it computes. -/
theorem freeAll_spec {i : Nat} (n : Nat) : ∀ (j : Nat) (g : DynMemStruct) (live : List Block), Inv g live →
    (∀ m, j ≤ m → m < j + n → ⟨g.beginAddr + 4096 * 2^i * m, 4096 * 2^i⟩ ∈ live) →
    ∃ g' live', freeAll (4096 * 2^i) n j g = some g' ∧ Inv g' live' ∧ SameLayout g g' ∧
      live'.length + n = live.length := by
  induction n with
  | zero => exact fun _ g live h _ => ⟨g, live, rfl, h, SameLayout.refl g, rfl⟩
  | succ n ih =>
    intro j g live h hmem
    have hpos : 0 < 4096 * 2^i := Nat.mul_pos (by omega) (Nat.two_pow_pos i)
    have hb := hmem j (Nat.le_refl j) (by omega)
    obtain ⟨g1, e, hinv, hl⟩ := h.free hb
    have haddr : u32 (g.beginAddr + 4096 * 2^i * j) = g.beginAddr + 4096 * 2^i * j := by
      have h1 := h.bytes_lt hb (a := g.beginAddr + 4096 * 2^i * j)
        ⟨Nat.le_refl _, Nat.lt_add_of_pos_right (Nat.mul_pos (by omega) (Nat.two_pow_pos _))⟩
      have h2 : dynMemoryMetadataAddr = 0xfffcf000 := rfl
      exact u32_of_lt (by omega)
    obtain ⟨g', live', e', hinv', hl', hlen⟩ := ih (j+1) g1 _ hinv (by
      intro m h1 h2
      have hne : (⟨g.beginAddr + 4096 * 2^i * m, 4096 * 2^i⟩ : Block) ≠
          ⟨g.beginAddr + 4096 * 2^i * j, 4096 * 2^i⟩ := by
        intro heq
        have h3 := Nat.eq_of_mul_eq_mul_left hpos (Nat.add_left_cancel (Block.mk.inj heq).1)
        omega
      rw [hl.beginAddr]
      exact (List.mem_erase_of_ne hne).mpr (hmem m (by omega) (by omega)))
    refine ⟨g', live', ?_, hinv', hl.trans hl', ?_⟩
    · unfold freeAll
      rw [haddr, e]
      exact e'
    · rw [List.length_erase_of_mem hb] at hlen
      have := List.length_pos_of_mem hb
      omega

/-! ## the command -/

theorem Inv.level_le {g : DynMemStruct} {live : List Block} (h : Inv g live) : g.bitmapLevel ≤ 20 := by
  have h1 := h.geometry.inside
  have h2 := h.geometry.fits
  have h3 := h.geometry.pos
  have h4 : iomapMemoryStartAddress = 0xbf800000 := rfl
  have h5 : Nat.log2 g.countOfUnitBlock < 20 := (Nat.log2_lt (by omega)).mpr (by omega)
  rw [h.table.level]
  omega

theorem page_shl_le {i : Nat} (h : i < 20) : 4096 * 2^i ≤ 2^31 := by
  have h1 : 2^i ≤ 2^19 := Nat.pow_le_pow_right (by omega) (by omega)
  omega

/-- with nothing allocated, every level is filled and released again -/
theorem levelTest_spec (n : Nat) : ∀ (i : Nat) (g : DynMemStruct), Inv g [] → Above g →
    i + n = g.bitmapLevel → ∃ g', levelTest n i g = some (.completed, g') ∧ Inv g' [] ∧ SameLayout g g' := by
  induction n with
  | zero => exact fun i g h _ _ => ⟨g, rfl, h, SameLayout.refl g⟩
  | succ n ih =>
    intro i g h hab hlev
    have hi : i < 20 := by
      have := h.level_le
      omega
    have hshr : g.countOfUnitBlock >>> i = g.countOfUnitBlock / 2^i := Nat.shiftRight_eq_div_pow _ _
    obtain ⟨r, g1, taken, e, ht⟩ := allocTest_spec (page_shl_le hi) (g.countOfUnitBlock / 2^i) 0 g [] h hab
    have hinv := ht.inv
    have hN : g1.countOfUnitBlock = g.countOfUnitBlock := ht.layout.countOfUnitBlock
    rw [List.append_nil] at hinv
    have htaken : ∀ b ∈ taken, b.level = i := fun b hb => Block.level_of_size (ht.sizes b hb)
    unfold levelTest
    simp only []
    rw [unit_shl hi, hshr, e]
    rcases ht.ends with ⟨rfl, hlen⟩ | ⟨_, hlt, hnone⟩
    · obtain ⟨g2, live', e2, hinv2, hl2, hlen2⟩ := freeAll_spec (g.countOfUnitBlock / 2^i) 0 g1 taken hinv
        fun m _ hm => hinv.full_level ht.sizes (by rw [hN]; exact hlen) (by rw [hN]; omega)
      have hnil : live' = [] := List.length_eq_zero_iff.mp (by omega)
      rw [hnil] at hinv2
      have hl := ht.layout.trans hl2
      obtain ⟨g', e', hinv', hl'⟩ := ih (i+1) g2 hinv2 (hab.layout hl) (by rw [hl.bitmapLevel]; show _ = g.bitmapLevel; omega)
      refine ⟨g', ?_, hinv', hl.trans hl'⟩
      simp only []
      rw [hN, hshr, e2]
      exact e'
    · -- a level that is not full yet has a free block
      rw [List.append_nil] at hnone
      obtain ⟨c, hc⟩ := hinv.exists_free htaken (by rw [hN]; exact hlt)
      exact absurd hc (hnone c)

/-- the number of unit blocks that the live blocks take up -/
def takenUnits (live : List Block) : Nat := (live.map fun b => 2^b.level).sum

/-- with something allocated, the first level cannot be filled -/
theorem levelTest_used {g : DynMemStruct} {live : List Block} (h : Inv g live) (hab : Above g)
    (hlive : live ≠ []) (n : Nat) : ∃ g' taken, levelTest (n+1) 0 g = some (.allocationFail 0 4096 taken.length, g') ∧
      Inv g' (taken ++ live) ∧ (∀ u, u ∉ freeUnits g' (taken ++ live)) ∧
      taken.length + takenUnits live = g.countOfUnitBlock ∧ ∀ b ∈ live, ∀ a ∈ b.bytes, g'.mem a = g.mem a := by
  have hshr : g.countOfUnitBlock >>> 0 = g.countOfUnitBlock / 2^0 := Nat.shiftRight_eq_div_pow _ _
  obtain ⟨r, g1, taken, e, ht⟩ := allocTest_spec (page_shl_le (show 0 < 20 by omega)) (g.countOfUnitBlock / 2^0)
    0 g live h hab
  have hN : g1.countOfUnitBlock = g.countOfUnitBlock := ht.layout.countOfUnitBlock
  obtain ⟨s, hs, hcard, hmem⟩ := sum_level_le (taken ++ live) ht.inv.placed ht.inv.apart
  have htaken : (taken.map fun b => 2^b.level).sum = taken.length := by
    have hall : ∀ x ∈ taken.map fun b => 2^b.level, x = 1 := by
      intro x hx
      obtain ⟨b, hb, rfl⟩ := List.mem_map.mp hx
      rw [Block.level_of_size (ht.sizes b hb), pow_zero]
    rw [List.eq_replicate_of_mem hall, List.sum_replicate_nat, List.length_map, Nat.mul_one]
  rw [List.map_append, List.sum_append, htaken] at hcard
  have hle := Finset.card_le_card hs
  rw [Finset.card_range, hcard, hN] at hle
  have hpos : 1 ≤ takenUnits live := by
    obtain ⟨b, l, rfl⟩ := List.exists_cons_of_ne_nil hlive
    show 1 ≤ (2^b.level :: _).sum
    have := Nat.two_pow_pos b.level
    rw [List.sum_cons]
    omega
  have hle' : taken.length + takenUnits live ≤ g.countOfUnitBlock := hle
  unfold levelTest
  simp only []
  rw [unit_shl (show 0 < 20 by omega), hshr, e]
  rcases ht.ends with ⟨_, hlen⟩ | ⟨rfl, _, hnone⟩
  · rw [pow_zero, Nat.div_one] at hlen
    omega
  · have hno : ∀ u, u ∉ freeUnits g1 (taken ++ live) := by
      intro u hu
      refine hnone u fun v hv => ?_
      rw [mem_blk, pow_zero, Nat.div_one] at hv
      exact hv ▸ hu
    refine ⟨g1, taken, by simp, ht.inv, hno, ?_, ht.other⟩
    -- every unit block is taken now
    have hall : s = Finset.range g1.countOfUnitBlock := by
      refine Finset.Subset.antisymm hs fun u hu => ?_
      by_contra hus
      refine hno u ⟨Finset.mem_range.mp hu, fun b hb hub => hus ((hmem u).mpr ⟨b, hb, hub⟩)⟩
    rw [hall, Finset.card_range, hN] at hcard
    exact hcard.symm

/-- what the command does, according to whether anything is allocated -/
structure DynSeqSpec (g : DynMemStruct) (live : List Block) : Prop where
  /-- it completes exactly on a heap with nothing allocated, which it leaves as it was -/
  completes : live = [] ↔ ∃ g', ckCoshellCmdTestDynSeq g = some (.completed, g')
  restores : live = [] → ∃ g', ckCoshellCmdTestDynSeq g = some (.completed, g') ∧ SameBitmaps g g' ∧ g'.usedSize = 0
  /-- else it stops on the first level with all the memory in its hands, and never gives it back -/
  exhausts : live ≠ [] → ∃ n g', ckCoshellCmdTestDynSeq g = some (.allocationFail 0 4096 n, g') ∧
    n + takenUnits live = g.countOfUnitBlock ∧
    (∀ size, 1 ≤ size → size ≤ 2^31 → (ckDynMemAllocate g' size).map Prod.fst = some 0) ∧
    ∀ b ∈ live, ∀ a ∈ b.bytes, g'.mem a = g.mem a

/-- **The memory test** completes iff nothing is allocated, and then leaves the heap as it was; if anything is
allocated it ends with all free memory taken, though the blocks of others keep their bytes. -/
theorem testDynSeq_spec (mem : Nat → BitVec 8) {dynMemSize : Nat} (h1 : dynMemBuddyUnitSize < dynMemSize)
    (h2 : dynMemSize ≤ iomapMemoryStartAddress - dynMemoryStartAddress)
    {g : DynMemStruct} {live : List Block} {img : Nat → BitVec 8}
    (h : ClientRun (ckDynMemInitialize mem dynMemSize) g live img) : DynSeqSpec g live := by
  have habove : Above _ := initialize_bits mem h1 h2
  have hi := h.isolated (inv_init mem h1 h2) habove
  have hab := habove.layout hi.layout
  have hrestores : live = [] → ∃ g', ckCoshellCmdTestDynSeq g = some (.completed, g') ∧ SameBitmaps g g' ∧
      g'.usedSize = 0 := by
    rintro rfl
    obtain ⟨g', e, hinv, hl⟩ := levelTest_spec g.bitmapLevel 0 g hi.inv hab (Nat.zero_add _)
    have ht := hi.inv.table
    rw [← hl.freeUnits_eq] at ht
    exact ⟨g', e, Tab.same (SameLayout.refl g) hl ht hinv.table, hinv.used⟩
  have hexhausts : live ≠ [] → ∃ n g', ckCoshellCmdTestDynSeq g = some (.allocationFail 0 4096 n, g') ∧
      n + takenUnits live = g.countOfUnitBlock ∧
      (∀ size, 1 ≤ size → size ≤ 2^31 → (ckDynMemAllocate g' size).map Prod.fst = some 0) ∧
      ∀ b ∈ live, ∀ a ∈ b.bytes, g'.mem a = g.mem a := by
    intro hlive
    obtain ⟨g', taken, e, hinv, hno, hsum, hkeep⟩ := levelTest_used hi.inv hab hlive (Nat.log2 g.countOfUnitBlock)
    rw [← hi.inv.table.level] at e
    refine ⟨taken.length, g', e, hsum, fun size h3 h4 => (hinv.null_iff h3 h4).mpr fun m hm => ?_, hkeep⟩
    -- the first unit block of a free block would be free
    exact hno (m * 2^sizeLevel size) (hm (mem_blk_iff.mpr ⟨Nat.le_refl _,
      Nat.mul_lt_mul_of_pos_right (Nat.lt_succ_self m) (Nat.two_pow_pos _)⟩))
  refine ⟨⟨fun h3 => ?_, fun ⟨g', e⟩ => ?_⟩, hrestores, hexhausts⟩
  · obtain ⟨g', e, _⟩ := hrestores h3
    exact ⟨g', e⟩
  · by_contra hne
    obtain ⟨n, g'', e', _⟩ := hexhausts hne
    rw [e] at e'
    cases e'

/-- the first 23 MiB with nothing allocated, and with one page allocated -/
theorem testDynSeq_spec_first : DynSeqSpec firstMemory [] ∧ ∃ g b, DynSeqSpec g [b] := by
  refine ⟨testDynSeq_spec (fun _ => 0#8) (by decide) (by decide) ClientRun.init, ?_⟩
  obtain ⟨g, addr, img, hrun⟩ := exists_client_page
  exact ⟨g, _, testDynSeq_spec (fun _ => 0#8) (by decide) (by decide) hrun⟩

end Clubcos
