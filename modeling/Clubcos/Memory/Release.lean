import Clubcos.Lib.Machine
import Clubcos.Memory.Layout
import Clubcos.Memory.Request

/-!
# Lists of releases

A caller that gives memory back page by page calls `ckDynMemFree` many times, with addresses inside the pages, and also
for addresses that are not in the heap at all.

* `released`        the blocks of the calls that returned `true`;
* `run_released`    they are those that the layout does not refuse, whatever the state of the blocks;
* `Pool.releases`   **blocks that are held, each released once**: no assertion fails, and they are free afterwards.
-/

set_option linter.unusedVariables false

namespace Clubcos
open Word Dyadic

/-- a call, with the address and the size -/
def release (g : DynMemStruct) (c : Nat × Nat) : Option (Bool × DynMemStruct) := ckDynMemFree g c.1 c.2

/-- what a call is about: the address is rounded down to a page -/
def callBlock (c : Nat × Nat) : Block := ⟨c.1 / 4096 * 4096, c.2⟩

def released (cs : List (Nat × Nat)) (rets : List Bool) : List Block :=
  ((cs.zip rets).filter Prod.snd).map fun e => callBlock e.1

/-- the call passes the checks of `ckDynMemFree` -/
def Taken (g : DynMemStruct) (c : Nat × Nat) : Prop := ¬ Refused g c.1 c.2

instance (g : DynMemStruct) (addr size : Nat) : Decidable (Refused g addr size) :=
  inferInstanceAs (Decidable (_ ∨ _ ∨ _ ∨ _ ∧ _))

instance (g : DynMemStruct) (c : Nat × Nat) : Decidable (Taken g c) := inferInstanceAs (Decidable (¬ _))

def takenBlocks (g : DynMemStruct) (cs : List (Nat × Nat)) : List Block :=
  (cs.filter fun c => decide (Taken g c)).map callBlock

theorem takenBlocks_cons (g : DynMemStruct) (c : Nat × Nat) (cs : List (Nat × Nat)) :
    takenBlocks g (c :: cs) = if Taken g c then callBlock c :: takenBlocks g cs else takenBlocks g cs := by
  unfold takenBlocks
  rw [List.filter_cons]
  by_cases h : Taken g c
  · rw [if_pos h, if_pos (decide_eq_true h), List.map_cons]
  · rw [if_neg h, if_neg fun e => h (of_decide_eq_true e)]

theorem takenBlocks_append (g : DynMemStruct) (cs cs' : List (Nat × Nat)) :
    takenBlocks g (cs ++ cs') = takenBlocks g cs ++ takenBlocks g cs' := by
  unfold takenBlocks
  rw [List.filter_append, List.map_append]

theorem takenBlocks_flatMap {ι : Type} (g : DynMemStruct) (l : List ι) (f : ι → List (Nat × Nat)) :
    takenBlocks g (l.flatMap f) = l.flatMap fun i => takenBlocks g (f i) := by
  unfold takenBlocks
  rw [List.filter_flatMap, List.map_flatMap]

theorem SameLayout.taken_iff {g g' : DynMemStruct} (h : SameLayout g g') (c : Nat × Nat) : Taken g' c ↔ Taken g c := by
  have h1 : g'.beginAddr = g.beginAddr := h.beginAddr
  have h2 : g'.dynMemSize = g.dynMemSize := h.dynMemSize
  have h3 : g'.bitmapLevel = g.bitmapLevel := h.bitmapLevel
  unfold Taken Refused
  rw [h1, h2, h3]

theorem SameLayout.takenBlocks_eq {g g' : DynMemStruct} (h : SameLayout g g') (cs : List (Nat × Nat)) :
    takenBlocks g' cs = takenBlocks g cs := by
  simp only [takenBlocks, h.taken_iff]

/-- what the checks need: they do not depend on the blocks -/
structure Sized (g : DynMemStruct) : Prop where
  level : 0 < g.bitmapLevel
  fits : dynMemoryStartAddress + g.dynMemSize < 2^32

theorem SameLayout.sized {g g' : DynMemStruct} (h : SameLayout g g') (hg : Sized g) : Sized g' := by
  have h2 : g'.dynMemSize = g.dynMemSize := h.dynMemSize
  have h3 : g'.bitmapLevel = g.bitmapLevel := h.bitmapLevel
  exact ⟨h3 ▸ hg.level, h2 ▸ hg.fits⟩

theorem Pool.sized {g : DynMemStruct} {F : Set Nat} (h : Pool g F) : Sized g := by
  have h1 := h.geometry.fits
  have h2 : iomapMemoryStartAddress = 0xbf800000 := rfl
  refine ⟨?_, by omega⟩
  rw [h.table.level]
  exact Nat.succ_pos _

/-- the value returned says whether the call has passed the checks -/
theorem release_cases {g g' : DynMemStruct} (hg : Sized g) {c : Nat × Nat} (hc : c.2 < 2^32) {ret : Bool}
    (h : release g c = some (ret, g')) : ret = decide (Taken g c) ∧ SameLayout g g' := by
  have hiff := free_refused_iff hg.level hg.fits c.1 hc
  rcases free_cases h with ⟨rfl, rfl⟩ | ⟨rfl, hl⟩
  · have hnot : ¬ Taken g' c := not_not_intro (hiff.mp h)
    exact ⟨(decide_eq_false hnot).symm, .refl _⟩
  · have htaken : Taken g c := fun hr => by
      have e := Option.some.inj (h.symm.trans (hiff.mpr hr))
      exact Bool.noConfusion (congrArg Prod.fst e)
    exact ⟨(decide_eq_true htaken).symm, hl⟩

theorem run_released {cs : List (Nat × Nat)} (hcs : ∀ c ∈ cs, c.2 < 2^32) : ∀ {g g' : DynMemStruct} {rets : List Bool},
    Sized g → Machine.run release g cs = some (rets, g') → released cs rets = takenBlocks g cs ∧ SameLayout g g' := by
  induction cs with
  | nil =>
    intro g g' rets _ h
    cases h
    exact ⟨rfl, .refl _⟩
  | cons c cs ih =>
    intro g g' rets hg h
    obtain ⟨hc, hcs⟩ := List.forall_mem_cons.mp hcs
    obtain ⟨⟨ret, g₁⟩, h₁, h₂⟩ := Option.bind_eq_some_iff.mp h
    obtain ⟨⟨rets₁, g₂⟩, h₃, h₄⟩ := Option.map_eq_some_iff.mp h₂
    cases h₄
    obtain ⟨hret, hl⟩ := release_cases hg hc h₁
    obtain ⟨hrest, hl'⟩ := ih hcs (hl.sized hg) h₃
    rw [hl.takenBlocks_eq] at hrest
    refine ⟨?_, hl.trans hl'⟩
    unfold released at hrest ⊢
    rw [takenBlocks_cons, ← hrest, List.zip_cons_cons, List.filter_cons, hret]
    by_cases ht : Taken g c
    · rw [if_pos ht, if_pos (decide_eq_true ht), List.map_cons]
    · rw [if_neg ht, if_neg fun e => ht (of_decide_eq_true e)]

/-! ## blocks that are held -/

structure Allocated (g : DynMemStruct) (F : Set Nat) (b : Block) : Prop where
  size : 1 ≤ b.size ∧ b.size ≤ 2^31
  placed : ∃ m, b.At g m
  held : ∀ u ∈ b.units g.beginAddr, u ∉ F

theorem Inv.allocated {g : DynMemStruct} {live : List Block} (h : Inv g live) {b : Block} (hb : b ∈ live) :
    Allocated g (freeUnits g live) b := ⟨h.sizes b hb, h.placed b hb, fun u hu hF => hF.2 b hb hu⟩

/-- within the range that is checked the address may be any one of its page -/
theorem free_round {g : DynMemStruct} {addr : Nat} (hbeg : g.beginAddr % 4096 = 0) (hlow : g.beginAddr ≤ addr)
    (hhigh : addr ≤ u32 (dynMemoryStartAddress + g.dynMemSize)) (size : Nat) :
    ckDynMemFree g addr size = ckDynMemFree g (addr / 4096 * 4096) size := by
  have hround : addr / 4096 * 4096 / 4096 * 4096 = addr / 4096 * 4096 := by omega
  have h1 : ¬ (addr < g.beginAddr ∨ u32 (dynMemoryStartAddress + g.dynMemSize) < addr) := by omega
  have h2 : ¬ (addr / 4096 * 4096 < g.beginAddr ∨
      u32 (dynMemoryStartAddress + g.dynMemSize) < addr / 4096 * 4096) := by omega
  have hunit : dynMemBuddyUnitSize = 4096 := rfl
  unfold ckDynMemFree
  simp only [if_neg h1, if_neg h2, hunit, hround]

section
variable {g : DynMemStruct} {F : Set Nat} (h : Pool g F)
include h

theorem Pool.release {c : Nat × Nat} (hb : Allocated g F (callBlock c)) (hc : Taken g c) :
    ∃ g', Clubcos.release g c = some (true, g') ∧ SameLayout g g' ∧ Pool g' (F ∪ (callBlock c).units g.beginAddr) := by
  obtain ⟨m, hat⟩ := hb.placed
  obtain ⟨h0, hsize⟩ := hb.size
  have hfits := h.geometry.fits
  have hiomap : iomapMemoryStartAddress = 0xbf800000 := rfl
  have hend : u32 (dynMemoryStartAddress + g.dynMemSize) = dynMemoryStartAddress + g.dynMemSize := u32_of_lt (by omega)
  have hlow : g.beginAddr ≤ c.1 := Nat.le_of_not_lt fun hlt => hc (Or.inr (Or.inl hlt))
  have hhigh : c.1 ≤ dynMemoryStartAddress + g.dynMemSize := Nat.le_of_not_lt fun hlt => hc (Or.inr (Or.inr (Or.inl hlt)))
  have haddr : g.beginAddr + m * (4096 * 2^(callBlock c).level) = c.1 / 4096 * 4096 := hat.1.symm
  obtain ⟨g', hf, ht, e⟩ := free_spec h.inside hat.2 (fun u hu => hb.held u (hat.units ▸ hu)) h.table h0 hsize rfl
    h.geometry.aligned (by rw [haddr]; omega) (by rw [haddr, hend]; omega)
  have hl := hf.sameLayout (sub32 g.usedSize ((c.2 + 4095) / 4096 * 4096))
  have hN : g'.countOfUnitBlock = g.countOfUnitBlock := hf.countOfUnitBlock
  refine ⟨_, ?_, hl, ?_⟩
  · show ckDynMemFree g c.1 c.2 = _
    rw [free_round h.geometry.aligned hlow (hend.symm ▸ hhigh), ← haddr]
    exact e
  · rw [hat.units]
    refine ⟨?_, ?_, ?_⟩
    · show Geometry _ g'.countOfUnitBlock
      rw [hN]
      exact hl.geometry h.geometry
    · show Tab _ g'.countOfUnitBlock _
      rw [hN]
      exact ht.setUsed _
    · intro u hu
      show u < g'.countOfUnitBlock
      rw [hN]
      rcases hu with hu | hu
      · exact h.inside u hu
      · exact hat.units_lt u (hat.units ▸ hu)

end

/-- the unit blocks of these blocks -/
def unitsOf (beginAddr : Nat) (bs : List Block) : Set Nat := {u | ∃ b ∈ bs, u ∈ b.units beginAddr}

theorem unitsOf_cons (beginAddr : Nat) (b : Block) (bs : List Block) :
    unitsOf beginAddr (b :: bs) = b.units beginAddr ∪ unitsOf beginAddr bs := by
  ext u
  exact List.exists_mem_cons_iff _ _ _

/-- **Blocks that are held, each released once.**  The other calls of the list are refused. -/
theorem Pool.releases {cs : List (Nat × Nat)} (hcs : ∀ c ∈ cs, c.2 < 2^32) : ∀ {g : DynMemStruct} {F : Set Nat},
    Pool g F → (∀ b ∈ takenBlocks g cs, Allocated g F b) → (takenBlocks g cs).Pairwise (Block.apart g.beginAddr) →
    ∃ rets g', Machine.run Clubcos.release g cs = some (rets, g') ∧
      Pool g' (F ∪ unitsOf g.beginAddr (takenBlocks g cs)) := by
  induction cs with
  | nil =>
    intro g F h _ _
    refine ⟨[], g, rfl, ?_⟩
    have hnone : unitsOf g.beginAddr (takenBlocks g []) = ∅ :=
      Set.eq_empty_of_forall_notMem fun u ⟨b, hb, _⟩ => List.not_mem_nil hb
    rw [hnone, Set.union_empty]
    exact h
  | cons c cs ih =>
    intro g F h hheld hapart
    obtain ⟨hc, hcs⟩ := List.forall_mem_cons.mp hcs
    by_cases ht : Taken g c
    · rw [takenBlocks_cons, if_pos ht] at hheld hapart ⊢
      obtain ⟨hb, hheld⟩ := List.forall_mem_cons.mp hheld
      obtain ⟨hap, hapart⟩ := List.pairwise_cons.mp hapart
      obtain ⟨g₁, h₁, hl, hpool⟩ := h.release hb ht
      have hB : g₁.beginAddr = g.beginAddr := hl.beginAddr
      have hheld₁ : ∀ b ∈ takenBlocks g₁ cs, Allocated g₁ (F ∪ (callBlock c).units g.beginAddr) b := by
        rw [hl.takenBlocks_eq]
        intro b hbs
        obtain ⟨hsize, ⟨m, hat⟩, hout⟩ := hheld b hbs
        refine ⟨hsize, ⟨m, hl.at_iff.mpr hat⟩, fun u hu => ?_⟩
        rw [hB] at hu
        exact not_or.mpr ⟨hout u hu, fun hu' => hap b hbs u hu' hu⟩
      obtain ⟨rets, g', hrun, hpool'⟩ := ih hcs hpool hheld₁ (by rw [hl.takenBlocks_eq, hB]; exact hapart)
      refine ⟨true :: rets, g', ?_, ?_⟩
      · rw [Machine.run_cons h₁, hrun]
        rfl
      · rw [hl.takenBlocks_eq, hB, Set.union_assoc, ← unitsOf_cons] at hpool'
        exact hpool'
    · rw [takenBlocks_cons, if_neg ht] at hheld hapart ⊢
      have h₁ : Clubcos.release g c = some (false, g) :=
        (free_refused_iff h.sized.level h.sized.fits c.1 hc).mpr (not_not.mp ht)
      obtain ⟨rets, g', hrun, hpool⟩ := ih hcs h hheld hapart
      refine ⟨false :: rets, g', ?_, hpool⟩
      rw [Machine.run_cons h₁, hrun]
      rfl

/-! ## the heap of a machine that has started -/

/-- The heap begins behind its metadata, and ends where the memory ends. -/
structure Ready (g : DynMemStruct) (F : Set Nat) : Prop where
  pool : Pool g F
  begins : dynMemoryStartAddress < g.beginAddr
  ends : g.beginAddr + g.countOfUnitBlock * 4096 = dynMemoryStartAddress + g.dynMemSize

theorem Run.ready {mem : Nat → BitVec 8} {dynMemSize : Nat} (hmb : 2^20 ∣ dynMemSize) (h1 : 23 * 2^20 ≤ dynMemSize)
    (h2 : dynMemSize ≤ iomapMemoryStartAddress - dynMemoryStartAddress) {g : DynMemStruct} {live : List Block}
    (h : Run (ckDynMemInitialize mem dynMemSize) g live) : Ready g (freeUnits g live) := by
  have hunit : dynMemBuddyUnitSize < dynMemSize := lt_of_lt_of_le (by decide) h1
  obtain ⟨hbegins, hends⟩ := initialize_region mem hmb hunit h2
  obtain ⟨hinv, hl⟩ := h.inv (inv_init mem hunit h2)
  have hB : g.beginAddr = (ckDynMemInitialize mem dynMemSize).beginAddr := hl.beginAddr
  have hN : g.countOfUnitBlock = (ckDynMemInitialize mem dynMemSize).countOfUnitBlock := hl.countOfUnitBlock
  have hS : g.dynMemSize = (ckDynMemInitialize mem dynMemSize).dynMemSize := hl.dynMemSize
  exact ⟨hinv.pool, by rwa [hB], by rwa [hB, hN, hS]⟩

theorem Allocated.addr_le {g : DynMemStruct} {F : Set Nat} (h : Ready g F) {b : Block} (hb : Allocated g F b) :
    b.addr % 4096 = 0 ∧ g.beginAddr ≤ b.addr ∧ b.addr + 4096 ≤ g.beginAddr + g.countOfUnitBlock * 4096 := by
  obtain ⟨m, hat⟩ := hb.placed
  have h1 := hat.addr_le
  have h2 := h.pool.geometry.aligned
  have h3 := Nat.two_pow_pos b.level
  have e : m * (4096 * 2^b.level) = 4096 * (m * 2^b.level) := by ring
  have h4 := hat.1
  omega

/-- a call with the address and the size of a block that is held -/
theorem Allocated.taken {g : DynMemStruct} {F : Set Nat} (h : Ready g F) {b : Block} (hb : Allocated g F b) :
    Taken g (b.addr, b.size) ∧ callBlock (b.addr, b.size) = b := by
  obtain ⟨h1, h2, h3⟩ := hb.addr_le h
  obtain ⟨m, hat⟩ := hb.placed
  have hends := h.ends
  have hpos : 0 < g.countOfUnitBlock / 2^b.level := Nat.zero_lt_of_lt hat.2
  have hlevel : b.level < g.bitmapLevel := by
    rw [h.pool.table.level]
    exact Nat.lt_succ_of_le ((Nat.le_log2 (by omega)).mpr (Nat.div_pos_iff.mp hpos).2)
  constructor
  · rintro (h0 | hlow | hhigh | ⟨_, htop⟩)
    · exact absurd h0 (Nat.ne_of_gt hb.size.1)
    · exact absurd hlow (Nat.not_lt.mpr h2)
    · have hhigh' : dynMemoryStartAddress + g.dynMemSize < b.addr := hhigh
      omega
    · exact absurd hlevel (Nat.not_lt.mpr htop)
  · have hround : b.addr / 4096 * 4096 = b.addr := by omega
    rw [callBlock, hround]

end Clubcos
