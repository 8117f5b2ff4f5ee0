import Clubcos.Memory.Release
import Clubcos.Task.Model

/-!
# The memory of a process that ends

`csCleanupProcess` walks the page directory and the page tables of a process.  An entry is the physical address of a page
and 12 bits of flags, of which the walk clears the lower 10.

* `ownedBlocks`       the frames, the page tables and the directory, as blocks of the heap;
* `Cleans`            each of them is released once, and nothing else;
* `cleanupPages_freed` the calls of `ckDynMemFree`, if no directory entry has a flag above bit 9.
-/

set_option linter.unusedVariables false

namespace Clubcos
open Word

/-! ## entries -/

/-- the page of an entry, without the 12 flags, as a physical address -/
def entryPage (entry : Nat) : Nat := entry / 4096 * 4096

/-- the page of an entry as a linear address -/
def pageAddr (entry : Nat) : Nat := ckDynMemPhysicalToLogical (entryPage entry)

theorem entryAddr_eq {e : Nat} (h : e < 2^32) : entryAddr e = e / 1024 * 1024 := by
  have hmask : (0xfffffc00 : Nat) = (2^22 - 1) <<< 10 := rfl
  have hdiv : e / 1024 * 1024 = (e >>> 10) <<< 10 := by rw [Nat.shiftLeft_eq, Nat.shiftRight_eq_div_pow]
  apply Nat.eq_of_testBit_eq
  intro i
  rw [entryAddr, hmask, hdiv, Nat.testBit_and, Nat.testBit_shiftLeft, Nat.testBit_shiftLeft, Nat.testBit_shiftRight,
    Nat.testBit_two_pow_sub_one]
  by_cases h10 : 10 ≤ i
  · have hi : 10 + (i - 10) = i := by omega
    rw [hi, decide_eq_true h10, Bool.true_and, Bool.true_and]
    by_cases h32 : i < 32
    · rw [decide_eq_true (by omega : i - 10 < 22), Bool.and_true]
    · rw [Nat.testBit_lt_two_pow (h.trans_le (Nat.pow_le_pow_right (by omega) (by omega))), Bool.false_and]
  · rw [decide_eq_false h10, Bool.false_and, Bool.false_and, Bool.and_false]

theorem physicalToLogical_eq {p : Nat} (h : p < 2^32) :
    ckDynMemPhysicalToLogical p = (p + (2^32 - 0x800000)) % 2^32 := by
  unfold ckDynMemPhysicalToLogical sub32 u32 dynMemoryStartAddress dynMemoryPhysicalAddress
  omega

/-- the walk of a table starts inside its page -/
theorem logical_entryAddr {e : Nat} (h : e < 2^32) :
    ckDynMemPhysicalToLogical (entryAddr e) = pageAddr e + e % 4096 / 1024 * 1024 := by
  unfold pageAddr entryPage
  rw [entryAddr_eq h, physicalToLogical_eq (by omega), physicalToLogical_eq (by omega)]
  omega

theorem pageAddr_aligned {e : Nat} (h : e < 2^32) : pageAddr e % 4096 = 0 ∧ pageAddr e < 2^32 := by
  unfold pageAddr entryPage
  rw [physicalToLogical_eq (by omega)]
  omega

/-- the page that `ckDynMemFree` rounds to is the page of the entry -/
theorem callBlock_entry {e : Nat} (h : e < 2^32) (size : Nat) :
    callBlock (ckDynMemPhysicalToLogical (entryAddr e), size) = ⟨pageAddr e, size⟩ := by
  have h1 := (pageAddr_aligned h).1
  have hround : (pageAddr e + e % 4096 / 1024 * 1024) / 4096 * 4096 = pageAddr e := by omega
  rw [callBlock, logical_entryAddr h, hround]

/-! ## what a process owns -/

def tableWords (mem : Nat → Nat) (ptbl : Nat) : List Nat := (List.range 1024).map fun j => mem (ptbl + 4 * j)

def dirWords (mem : Nat → Nat) (pdir : Nat) : List Nat := (List.range kernelPageDirNum).map fun i => mem (pdir + 4 * i)

/-- the pages of the entries that are not zero -/
def pagesOf (es : List Nat) : List Nat := (es.filter (· ≠ 0)).map pageAddr

/-- the page tables of a directory -/
def tablesOf (mem : Nat → Nat) (pdir : Nat) : List Nat := pagesOf (dirWords mem pdir)

/-- the entries of its page tables -/
def frameEntries (mem : Nat → Nat) (pdir : Nat) : List Nat :=
  (tablesOf mem pdir).flatMap fun ptbl => (tableWords mem ptbl).filter (· ≠ 0)

/-- the entry refers to a page of the heap -/
def IsFrame (g : DynMemStruct) (entry : Nat) : Prop :=
  g.beginAddr ≤ pageAddr entry ∧ pageAddr entry < g.beginAddr + g.countOfUnitBlock * 4096

instance (g : DynMemStruct) (entry : Nat) : Decidable (IsFrame g entry) := inferInstanceAs (Decidable (_ ∧ _))

def framesOf (g : DynMemStruct) (mem : Nat → Nat) (pdir : Nat) : List Nat :=
  ((frameEntries mem pdir).filter fun e => decide (IsFrame g e)).map pageAddr

def pageBlock (addr : Nat) : Block := ⟨addr, 4096⟩

def dirBlock (p : Process) : List Block := if p.pageDirSize ≠ 0 then [⟨p.pageDirectory, p.pageDirSize⟩] else []

def ownedBlocks (g : DynMemStruct) (mem : Nat → Nat) (p : Process) : List Block :=
  (framesOf g mem p.pageDirectory).map pageBlock ++ ((tablesOf mem p.pageDirectory).map pageBlock ++ dirBlock p)

/-- A page directory and its page tables: what they refer to in the heap is allocated, nothing is referred to twice, and
neither a frame nor a table is the directory. -/
structure Owns (g : DynMemStruct) (F : Set Nat) (mem : Nat → Nat) (p : Process) : Prop where
  words : ∀ a, mem a < 2^32
  directory : p.pageDirectory ≠ 0 ∧ p.pageDirectory % 4096 = 0 ∧ p.pageDirectory < 2^32
  held : ∀ b ∈ ownedBlocks g mem p, Allocated g F b
  apart : (ownedBlocks g mem p).Pairwise (Block.apart g.beginAddr)
  notDirectory : ∀ addr ∈ framesOf g mem p.pageDirectory ++ tablesOf mem p.pageDirectory, addr ≠ p.pageDirectory

/-- `csCleanupProcess` comes back, no assertion of `ckDynMemFree` fails, and exactly what the process owns is released, each
block once. -/
def Cleans (s : TaskStruct) (pProc : ProcPtr) (g : DynMemStruct) (F : Set Nat) : Prop :=
  ∃ s' calls rets g', csCleanupProcess s pProc = some s' ∧ s'.pages.freed = s.pages.freed ++ calls ∧
    Machine.run release g calls = some (rets, g') ∧
    (released calls rets).Perm (ownedBlocks g s.pages.mem (s.processes pProc)) ∧
    Pool g' (F ∪ unitsOf g.beginAddr (ownedBlocks g s.pages.mem (s.processes pProc)))

/-- bits 10 and 11 of the directory entries are clear -/
def FlagsClear (mem : Nat → Nat) (pdir : Nat) : Prop := ∀ e ∈ dirWords mem pdir, e % 4096 < 1024

/-- no entry makes the walk release the page behind the heap -/
def NoneBehind (g : DynMemStruct) (mem : Nat → Nat) (pdir : Nat) : Prop :=
  ∀ e ∈ frameEntries mem pdir, ckDynMemPhyIsDynMem (entryAddr e) = true →
    ckDynMemPhysicalToLogical (entryAddr e) ≠ dynMemoryStartAddress + g.dynMemSize

/-! ## the calls of a walk -/

def frameCalls (ws : List Nat) : List (Nat × Nat) :=
  (ws.filter fun e => e ≠ 0 ∧ ckDynMemPhyIsDynMem (entryAddr e)).map fun e =>
    (ckDynMemPhysicalToLogical (entryAddr e), dynMemBuddyUnitSize)

def tableCalls (mem : Nat → Nat) (ptbl : Nat) : List (Nat × Nat) :=
  frameCalls (tableWords mem ptbl) ++ [(ptbl, dynMemBuddyUnitSize)]

theorem frameCalls_cons (e : Nat) (ws : List Nat) :
    frameCalls (e :: ws) = (if e ≠ 0 ∧ ckDynMemPhyIsDynMem (entryAddr e) then
      [(ckDynMemPhysicalToLogical (entryAddr e), dynMemBuddyUnitSize)] else []) ++ frameCalls ws := by
  unfold frameCalls
  rw [List.filter_cons]
  by_cases h : e ≠ 0 ∧ ckDynMemPhyIsDynMem (entryAddr e) = true
  · rw [if_pos h, if_pos (decide_eq_true h), List.map_cons]
    rfl
  · rw [if_neg h, if_neg fun e' => h (of_decide_eq_true e')]
    rfl

/-- the words from `a` on -/
theorem words_succ (mem : Nat → Nat) (n a : Nat) : ((List.range (n + 1)).map fun j => mem (a + 4 * j)) =
    mem a :: (List.range n).map fun j => mem (a + 4 + 4 * j) := by
  rw [List.range_succ_eq_map, List.map_cons, List.map_map]
  congr 1
  apply List.map_congr_left
  intro j _
  show mem (a + 4 * (j + 1)) = mem (a + 4 + 4 * j)
  congr 1
  omega

theorem words_congr {mem mem' : Nat → Nat} {n a : Nat} (h : ∀ x, a ≤ x → x < a + 4 * n → mem' x = mem x) :
    ((List.range n).map fun j => mem' (a + 4 * j)) = (List.range n).map fun j => mem (a + 4 * j) := by
  apply List.map_congr_left
  intro j hj
  have hlt := List.mem_range.mp hj
  exact h _ (by omega) (by omega)

/-- a walk of a table frees what its words refer to, and changes no other word -/
theorem cleanupTable_spec (n : Nat) : ∀ (a : Nat) (g : Pages), a + 4 * n < 2^32 →
    (cleanupTable n a g).freed = g.freed ++ frameCalls ((List.range n).map fun j => g.mem (a + 4 * j)) ∧
    ∀ x, x < a ∨ a + 4 * n ≤ x → (cleanupTable n a g).mem x = g.mem x := by
  induction n with
  | zero =>
    intro a g _
    exact ⟨(List.append_nil _).symm, fun _ _ => rfl⟩
  | succ n ih =>
    intro a g ha
    have hnext : u32 (a + 4) = a + 4 := u32_of_lt (by omega)
    rw [words_succ, frameCalls_cons, cleanupTable, hnext]
    by_cases he : g.mem a ≠ 0 ∧ ckDynMemPhyIsDynMem (entryAddr (g.mem a)) = true
    · rw [if_pos he, if_pos he]
      let g₁ := (g.free (ckDynMemPhysicalToLogical (entryAddr (g.mem a))) dynMemBuddyUnitSize).write a 0
      have hmem : ∀ x, x ≠ a → g₁.mem x = g.mem x := fun x hx => Function.update_of_ne hx _ _
      obtain ⟨hfreed, hrest⟩ := ih (a + 4) g₁ (by omega)
      rw [words_congr fun x h1 h2 => hmem x (by omega)] at hfreed
      refine ⟨?_, fun x hx => (hrest x (by omega)).trans (hmem x (by omega))⟩
      rw [← List.append_assoc]
      exact hfreed
    · rw [if_neg he, if_neg he]
      obtain ⟨hfreed, hrest⟩ := ih (a + 4) g (by omega)
      exact ⟨hfreed, fun x hx => hrest x (by omega)⟩

/-- the page of a table lies apart from the words `a .. b - 1` -/
def Clear (ptbl a b : Nat) : Prop := ptbl + 4096 ≤ a ∨ b ≤ ptbl

theorem Clear.mono {ptbl a b a' b' : Nat} (h : Clear ptbl a b) (ha : a ≤ a') (hb : b' ≤ b) : Clear ptbl a' b' :=
  h.imp (fun h => h.trans ha) fun h => hb.trans h

/-- what a table walk leaves behind, when the table and its entry in the directory are given up as well -/
theorem table_given_up {ptbl : Nat} {g g₀ : Pages} (hfreed : g₀.freed = g.freed ++ frameCalls (tableWords g.mem ptbl))
    (hmem : ∀ x, x < ptbl ∨ ptbl + 4 * 1024 ≤ x → g₀.mem x = g.mem x) (dirptr : Nat) :
    let g' := (g₀.free ptbl dynMemBuddyUnitSize).write dirptr 0
    g'.freed = g.freed ++ tableCalls g.mem ptbl ∧ ∀ x, x ≠ dirptr → x < ptbl ∨ ptbl + 4096 ≤ x → g'.mem x = g.mem x := by
  refine ⟨?_, fun x hx hout => (Function.update_of_ne hx _ _).trans (hmem x (by omega))⟩
  show g₀.freed ++ _ = _
  rw [hfreed, List.append_assoc, tableCalls]

theorem pagesOf_cons (e : Nat) (es : List Nat) :
    pagesOf (e :: es) = (if e ≠ 0 then [pageAddr e] else []) ++ pagesOf es := by
  unfold pagesOf
  rw [List.filter_cons]
  by_cases h : e ≠ 0
  · rw [if_pos h, if_pos (decide_eq_true h), List.map_cons]
    rfl
  · rw [if_neg h, if_neg fun e' => h (of_decide_eq_true e')]
    rfl

theorem cleanupDirectory_freed (n : Nat) : ∀ (d : Nat) (g : Pages) (es : List Nat), d + 4 * n < 2^32 →
    es = ((List.range n).map fun i => g.mem (d + 4 * i)) → (∀ e ∈ es, e < 2^32 ∧ e % 4096 < 1024) →
    (∀ t ∈ pagesOf es, t + 4096 < 2^32 ∧ Clear t d (d + 4 * n)) →
    (pagesOf es).Pairwise (fun t t' => Clear t t' (t' + 4096)) →
    (cleanupDirectory n d g).freed = g.freed ++ (pagesOf es).flatMap (tableCalls g.mem) := by
  induction n with
  | zero =>
    intro d g es _ he _ _ _
    subst he
    exact (List.append_nil _).symm
  | succ n ih =>
    intro d g es hd he hes hts hapart
    have hnext : u32 (d + 4) = d + 4 := u32_of_lt (by omega)
    rw [words_succ] at he
    subst he
    obtain ⟨⟨hlt, hflags⟩, hes⟩ := List.forall_mem_cons.mp hes
    rw [cleanupDirectory, hnext]
    rw [pagesOf_cons] at hts hapart ⊢
    by_cases hne : g.mem d ≠ 0
    · rw [if_pos hne, List.singleton_append] at hts hapart
      rw [if_pos hne, if_pos hne, List.singleton_append]
      obtain ⟨⟨htop, hclear⟩, hrests⟩ := List.forall_mem_cons.mp hts
      obtain ⟨hap, haparts⟩ := List.pairwise_cons.mp hapart
      clear hts hapart
      -- without the flags 10 and 11 the walk starts at the first entry
      have hptbl : ckDynMemPhysicalToLogical (entryAddr (g.mem d)) = pageAddr (g.mem d) := by
        rw [logical_entryAddr hlt]
        omega
      simp only [hptbl]
      generalize pageAddr (g.mem d) = t at *
      obtain ⟨hwalk, hout⟩ := cleanupTable_spec 1024 t g (by omega)
      obtain ⟨hfreed, hmem⟩ := table_given_up hwalk hout d
      generalize ((cleanupTable 1024 t g).free t dynMemBuddyUnitSize).write d 0 = g₁ at hfreed hmem ⊢
      have hwords : ((List.range n).map fun i => g₁.mem (d + 4 + 4 * i)) =
          (List.range n).map fun i => g.mem (d + 4 + 4 * i) :=
        words_congr fun x h1 h2 => hmem x (by omega) (by unfold Clear at hclear; omega)
      have htables : ∀ t' ∈ pagesOf ((List.range n).map fun i => g.mem (d + 4 + 4 * i)),
          tableCalls g₁.mem t' = tableCalls g.mem t' := by
        intro t' ht'
        have h1 := hap t' ht'
        have h2 := (hrests t' ht').2
        unfold Clear at h1 h2
        have hsame : tableWords g₁.mem t' = tableWords g.mem t' :=
          words_congr fun x h3 h4 => hmem x (by omega) (by omega)
        rw [tableCalls, hsame, tableCalls]
      have hrest := ih (d + 4) g₁ _ (by omega) hwords.symm hes
        (fun t' ht' => ⟨(hrests t' ht').1, (hrests t' ht').2.mono (by omega) (by omega)⟩) haparts
      rw [hfreed, List.flatMap_congr htables] at hrest
      rw [List.flatMap_cons, ← List.append_assoc]
      exact hrest
    · rw [if_neg hne] at hts hapart ⊢
      rw [if_neg hne]
      exact ih (d + 4) g _ (by omega) rfl hes
        (fun t ht => ⟨(hts t ht).1, (hts t ht).2.mono (by omega) (by omega)⟩) hapart

def dirCalls (p : Process) : List (Nat × Nat) := if p.pageDirSize ≠ 0 then [(p.pageDirectory, p.pageDirSize)] else []

def walkCalls (mem : Nat → Nat) (p : Process) : List (Nat × Nat) :=
  (tablesOf mem p.pageDirectory).flatMap (tableCalls mem) ++ dirCalls p

/-! ## the calls on the heap -/

theorem dirWords_mem {g : DynMemStruct} {F : Set Nat} {mem : Nat → Nat} {p : Process} (ho : Owns g F mem p) :
    ∀ e ∈ dirWords mem p.pageDirectory, e < 2^32 := by
  intro e he
  obtain ⟨i, _, rfl⟩ := List.mem_map.mp he
  exact ho.words _

theorem Owns.table_held {g : DynMemStruct} {F : Set Nat} {mem : Nat → Nat} {p : Process} (ho : Owns g F mem p) {t : Nat}
    (ht : t ∈ tablesOf mem p.pageDirectory) : Allocated g F (pageBlock t) :=
  ho.held _ (List.mem_append_right _ (List.mem_append_left _ (List.mem_map_of_mem ht)))

theorem Owns.directory_held {g : DynMemStruct} {F : Set Nat} {mem : Nat → Nat} {p : Process} (ho : Owns g F mem p)
    (hsize : p.pageDirSize ≠ 0) : Allocated g F ⟨p.pageDirectory, p.pageDirSize⟩ := by
  have hheld : ∀ b ∈ dirBlock p, Allocated g F b :=
    fun b hb => ho.held b (List.mem_append_right _ (List.mem_append_right _ hb))
  unfold dirBlock at hheld
  rw [if_pos hsize] at hheld
  exact hheld _ (List.mem_singleton_self _)

theorem walkCalls_size {g : DynMemStruct} {F : Set Nat} {mem : Nat → Nat} {p : Process} (ho : Owns g F mem p) :
    ∀ c ∈ walkCalls mem p, c.2 < 2^32 := by
  have hunit : dynMemBuddyUnitSize < 2^32 := by decide
  intro c hc
  rcases List.mem_append.mp hc with hc | hc
  · obtain ⟨t, _, hc⟩ := List.mem_flatMap.mp hc
    rcases List.mem_append.mp hc with hc | hc
    · obtain ⟨e, _, rfl⟩ := List.mem_map.mp hc
      exact hunit
    · obtain rfl := List.mem_singleton.mp hc
      exact hunit
  · unfold dirCalls at hc
    split at hc
    · obtain rfl := List.mem_singleton.mp hc
      exact Nat.lt_of_le_of_lt (ho.directory_held ‹_›).size.2 (by decide)
    · cases hc

section
variable {g : DynMemStruct} {F : Set Nat} (h : Ready g F)
include h

/-- the calls for an entry that come through are those for a page of the heap, and for the page behind it -/
theorem taken_entry_iff {e : Nat} (he : e < 2^32) :
    ckDynMemPhyIsDynMem (entryAddr e) = true ∧
        Taken g (ckDynMemPhysicalToLogical (entryAddr e), dynMemBuddyUnitSize) ↔
      IsFrame g e ∨ ckDynMemPhyIsDynMem (entryAddr e) = true ∧
        ckDynMemPhysicalToLogical (entryAddr e) = dynMemoryStartAddress + g.dynMemSize := by
  have hbegin := h.begins
  have hends := h.ends
  have haligned := h.pool.geometry.aligned
  have hfits := h.pool.geometry.fits
  have hpage := pageAddr_aligned he
  have hlevel := h.pool.sized.level
  have haddr := logical_entryAddr he
  have hphy : pageAddr e = (e / 4096 * 4096 + (2^32 - 0x800000)) % 2^32 := by
    unfold pageAddr entryPage
    exact physicalToLogical_eq (by omega)
  have hdyn : ckDynMemPhyIsDynMem (entryAddr e) = true ↔ 0x900000 < e / 1024 * 1024 ∧ e / 1024 * 1024 < 0xc0000000 := by
    rw [entryAddr_eq he]
    exact decide_eq_true_iff
  have hstart : dynMemoryStartAddress = 0x100000 := rfl
  have hiomap : iomapMemoryStartAddress = 0xbf800000 := rfl
  have htaken : Taken g (ckDynMemPhysicalToLogical (entryAddr e), dynMemBuddyUnitSize) ↔
      g.beginAddr ≤ ckDynMemPhysicalToLogical (entryAddr e) ∧
        ckDynMemPhysicalToLogical (entryAddr e) ≤ dynMemoryStartAddress + g.dynMemSize := by
    have hsize : sizeLevel dynMemBuddyUnitSize = 0 := sizeLevel_page 0
    have hunit : dynMemBuddyUnitSize ≠ 0 := by decide
    unfold Taken Refused
    rw [hsize]
    simp only [hunit, false_or, not_or, Nat.not_lt, not_and]
    exact ⟨fun ⟨h1, h2, _⟩ => ⟨h1, h2⟩, fun ⟨h1, h2⟩ => ⟨h1, h2, fun _ => by omega⟩⟩
  unfold IsFrame
  rw [htaken, hdyn]
  omega

/-- the frames that a table refers to, as blocks -/
theorem takenBlocks_frames {ws : List Nat} (hws : ∀ e ∈ ws, e < 2^32)
    (hnone : ∀ e ∈ ws.filter (· ≠ 0), ckDynMemPhyIsDynMem (entryAddr e) = true →
      ckDynMemPhysicalToLogical (entryAddr e) ≠ dynMemoryStartAddress + g.dynMemSize) :
    takenBlocks g (frameCalls ws) =
      (((ws.filter (· ≠ 0)).filter fun e => decide (IsFrame g e)).map pageAddr).map pageBlock := by
  induction ws with
  | nil => rfl
  | cons e ws ih =>
    obtain ⟨he, hws⟩ := List.forall_mem_cons.mp hws
    rw [frameCalls_cons, List.filter_cons]
    rw [List.filter_cons] at hnone
    by_cases h0 : e ≠ 0
    · rw [if_pos (decide_eq_true h0)] at hnone ⊢
      obtain ⟨hbehind, hnone⟩ := List.forall_mem_cons.mp hnone
      have hiff : ckDynMemPhyIsDynMem (entryAddr e) = true ∧
          Taken g (ckDynMemPhysicalToLogical (entryAddr e), dynMemBuddyUnitSize) ↔ IsFrame g e := by
        rw [taken_entry_iff h he]
        exact or_iff_left fun hb => hbehind hb.1 hb.2
      rw [List.filter_cons]
      by_cases hf : IsFrame g e
      · obtain ⟨hdyn, ht⟩ := hiff.mpr hf
        rw [if_pos ⟨h0, hdyn⟩, if_pos (decide_eq_true hf), List.singleton_append, takenBlocks_cons, if_pos ht,
          callBlock_entry he, ih hws hnone]
        rfl
      · rw [if_neg fun e' => hf (of_decide_eq_true e'), ← ih hws hnone]
        by_cases hdyn : ckDynMemPhyIsDynMem (entryAddr e) = true
        · rw [if_pos ⟨h0, hdyn⟩, List.singleton_append, takenBlocks_cons, if_neg fun ht => hf (hiff.mp ⟨hdyn, ht⟩)]
        · rw [if_neg fun hd => hdyn hd.2, List.nil_append]
    · rw [if_neg fun e' => h0 (of_decide_eq_true e')] at hnone ⊢
      rw [if_neg fun hd => h0 hd.1, List.nil_append]
      exact ih hws hnone

/-- a call with the address and the size of a block that is held -/
theorem takenBlocks_held {b : Block} (hb : Allocated g F b) : takenBlocks g [(b.addr, b.size)] = [b] := by
  obtain ⟨ht, hblock⟩ := hb.taken h
  rw [takenBlocks_cons, if_pos ht, hblock]
  rfl

/-- the frames that one table refers to -/
def tableFrames (g : DynMemStruct) (mem : Nat → Nat) (ptbl : Nat) : List Block :=
  (((tableWords mem ptbl).filter (· ≠ 0)).filter fun e => decide (IsFrame g e)).map fun e => pageBlock (pageAddr e)

theorem takenBlocks_table {mem : Nat → Nat} {p : Process} (ho : Owns g F mem p) (hnone : NoneBehind g mem p.pageDirectory)
    {t : Nat} (ht : t ∈ tablesOf mem p.pageDirectory) :
    takenBlocks g (tableCalls mem t) = tableFrames g mem t ++ [pageBlock t] := by
  have hws : ∀ e ∈ tableWords mem t, e < 2^32 := by
    intro e he
    obtain ⟨j, _, rfl⟩ := List.mem_map.mp he
    exact ho.words _
  rw [tableCalls, takenBlocks_append, takenBlocks_frames h hws fun e he =>
    hnone e (List.mem_flatMap.mpr ⟨t, ht, he⟩), List.map_map]
  exact congrArg _ (takenBlocks_held h (ho.table_held ht))

theorem takenBlocks_directory {mem : Nat → Nat} {p : Process} (ho : Owns g F mem p) :
    takenBlocks g (dirCalls p) = dirBlock p := by
  unfold dirCalls dirBlock
  split
  · exact takenBlocks_held h (ho.directory_held ‹_›)
  · rfl

omit h in
theorem framesOf_tables (g : DynMemStruct) (mem : Nat → Nat) (pdir : Nat) :
    (framesOf g mem pdir).map pageBlock = (tablesOf mem pdir).flatMap (tableFrames g mem) := by
  unfold framesOf frameEntries
  rw [List.filter_flatMap, List.map_map, List.map_flatMap]
  rfl

/-- the frames of the tables, and the tables, one table after the other -/
theorem takenBlocks_walk {mem : Nat → Nat} {p : Process} (ho : Owns g F mem p)
    (hnone : NoneBehind g mem p.pageDirectory) : (takenBlocks g (walkCalls mem p)).Perm (ownedBlocks g mem p) := by
  rw [walkCalls, takenBlocks_append, takenBlocks_flatMap, List.flatMap_congr fun t ht => takenBlocks_table h ho hnone ht,
    takenBlocks_directory h ho, ownedBlocks, framesOf_tables, ← List.append_assoc]
  refine List.Perm.append_right _ ?_
  have hperm := List.flatMap_append_perm (tablesOf mem p.pageDirectory) (tableFrames g mem) fun t => [pageBlock t]
  rw [← List.map_eq_flatMap] at hperm
  exact hperm.symm

/-- a page table lies in the heap, apart from the directory -/
theorem table_clear {mem : Nat → Nat} {p : Process} (ho : Owns g F mem p) {t : Nat} (ht : t ∈ tablesOf mem p.pageDirectory) :
    t % 4096 = 0 ∧ g.beginAddr ≤ t ∧ t + 4096 ≤ dynMemoryStartAddress + g.dynMemSize ∧
      Clear t p.pageDirectory (p.pageDirectory + 4096) := by
  obtain ⟨h1, h2, h3⟩ := (ho.table_held ht).addr_le h
  rw [h.ends] at h3
  have hne := ho.notDirectory t (List.mem_append_right _ ht)
  have haligned := ho.directory.2.1
  refine ⟨h1, h2, h3, ?_⟩
  have h1' : t % 4096 = 0 := h1
  unfold Clear
  omega

/-- two pages of the heap apart from each other -/
theorem page_ne_of_apart {a b : Nat} (ha : Allocated g F (pageBlock a)) (hap : (pageBlock a).apart g.beginAddr (pageBlock b)) :
    a ≠ b := by
  rintro rfl
  obtain ⟨h1, h2, _⟩ := ha.addr_le h
  have hbegin := h.pool.geometry.aligned
  have hlevel : (pageBlock a).level = 0 := sizeLevel_page 0
  have h1' : a % 4096 = 0 := h1
  have h2' : g.beginAddr ≤ a := h2
  have hu : (a - g.beginAddr) / 4096 ∈ (pageBlock a).units g.beginAddr := by
    show a ≤ _ ∧ _ < a + 4096 * 2^(pageBlock a).level
    rw [hlevel]
    omega
  exact hap _ hu hu

theorem tables_apart {mem : Nat → Nat} {p : Process} (ho : Owns g F mem p) :
    (tablesOf mem p.pageDirectory).Pairwise (fun t t' => Clear t t' (t' + 4096)) := by
  have hapart := (List.pairwise_append.mp (List.pairwise_append.mp ho.apart).2.1).1
  rw [List.pairwise_map] at hapart
  refine hapart.imp_of_mem fun {t t'} ht ht' hap => ?_
  have hne := page_ne_of_apart h (ho.table_held ht) hap
  have h1 := (table_clear h ho ht).1
  have h2 := (table_clear h ho ht').1
  unfold Clear
  omega

/-- **The calls of `ckDynMemFree`**, when no directory entry has a flag above bit 9 -/
theorem cleanupPages_freed {s : Pages} {p : Process} (ho : Owns g F s.mem p) (hflags : FlagsClear s.mem p.pageDirectory) :
    (cleanupPages s p).freed = s.freed ++ walkCalls s.mem p := by
  obtain ⟨h0, haligned, htop⟩ := ho.directory
  have hfits := h.pool.geometry.fits
  have hiomap : iomapMemoryStartAddress = 0xbf800000 := rfl
  have hnum : kernelPageDirNum = 0x3f8 := rfl
  have hwalk := cleanupDirectory_freed kernelPageDirNum p.pageDirectory s (dirWords s.mem p.pageDirectory) (by omega) rfl
    (fun e he => ⟨dirWords_mem ho e he, hflags e he⟩)
    (fun t ht => by
      obtain ⟨_, _, h3, h4⟩ := table_clear h ho ht
      exact ⟨by omega, h4.mono (Nat.le_refl _) (by omega)⟩)
    (tables_apart h ho)
  unfold cleanupPages walkCalls dirCalls
  rw [if_pos h0]
  simp only []
  generalize cleanupDirectory kernelPageDirNum p.pageDirectory s = s₁ at hwalk ⊢
  split
  · rw [← List.append_assoc]
    exact congrArg (· ++ _) hwalk
  · rw [List.append_nil]
    exact hwalk

/-- the blocks of the calls that come through decide -/
theorem cleans_iff {s : TaskStruct} {pProc : ProcPtr} (hparent : (s.processes pProc).pParentProcess ≠ none)
    (ho : Owns g F s.pages.mem (s.processes pProc)) {calls : List (Nat × Nat)} (hsize : ∀ c ∈ calls, c.2 < 2^32)
    (hfreed : (cleanupPages s.pages (s.processes pProc)).freed = s.pages.freed ++ calls) :
    Cleans s pProc g F ↔ (takenBlocks g calls).Perm (ownedBlocks g s.pages.mem (s.processes pProc)) := by
  obtain ⟨q, hq⟩ := Option.ne_none_iff_exists'.mp hparent
  have hcleanup : csCleanupProcess s pProc = some { s with
      children := ckLinkedListErase s.children q pProc
      pages := (cleanupPages s.pages (s.processes pProc)).clean pProc } := by
    unfold csCleanupProcess
    rw [hq]
    rfl
  constructor
  · rintro ⟨s', calls', rets, g', hs', hcalls, hrun, hperm, _⟩
    obtain rfl := Option.some.inj (hcleanup.symm.trans hs')
    obtain rfl : calls = calls' := List.append_cancel_left (hfreed.symm.trans hcalls)
    rw [(run_released hsize h.pool.sized hrun).1] at hperm
    exact hperm
  · intro hperm
    have hheld : ∀ b ∈ takenBlocks g calls, Allocated g F b := fun b hb => ho.held b (hperm.mem_iff.mp hb)
    have hapart := (hperm.pairwise_iff Block.apart_symm).mpr ho.apart
    obtain ⟨rets, g', hrun, hpool⟩ := Pool.releases hsize h.pool hheld hapart
    have hunits : unitsOf g.beginAddr (takenBlocks g calls) =
        unitsOf g.beginAddr (ownedBlocks g s.pages.mem (s.processes pProc)) := by
      ext u
      exact exists_congr fun b => and_congr_left fun _ => hperm.mem_iff
    rw [hunits] at hpool
    refine ⟨_, calls, rets, g', hcleanup, hfreed, hrun, ?_, hpool⟩
    rw [(run_released hsize h.pool.sized hrun).1]
    exact hperm

/-- **Without flags above bit 9** the memory is given back, unless an entry refers to the page behind the heap. -/
theorem flagsClear_cleans_iff {s : TaskStruct} {pProc : ProcPtr} (hparent : (s.processes pProc).pParentProcess ≠ none)
    (ho : Owns g F s.pages.mem (s.processes pProc))
    (hflags : FlagsClear s.pages.mem (s.processes pProc).pageDirectory) :
    Cleans s pProc g F ↔ NoneBehind g s.pages.mem (s.processes pProc).pageDirectory := by
  rw [cleans_iff h hparent ho (walkCalls_size ho) (cleanupPages_freed h ho hflags)]
  refine ⟨fun hperm e he hdyn hbehind => ?_, takenBlocks_walk h ho⟩
  -- the block of such a call lies behind the heap
  obtain ⟨t, ht, he⟩ := List.mem_flatMap.mp he
  obtain ⟨hword, h0⟩ := List.mem_filter.mp he
  obtain ⟨j, _, hj⟩ := List.mem_map.mp hword
  have hlt : e < 2^32 := hj ▸ ho.words _
  have hcall : (ckDynMemPhysicalToLogical (entryAddr e), dynMemBuddyUnitSize) ∈
      walkCalls s.pages.mem (s.processes pProc) := by
    refine List.mem_append_left _ (List.mem_flatMap.mpr ⟨t, ht, List.mem_append_left _ (List.mem_map_of_mem ?_)⟩)
    exact List.mem_filter.mpr ⟨hword, decide_eq_true ⟨of_decide_eq_true h0, hdyn⟩⟩
  have htaken := ((taken_entry_iff h hlt).mpr (Or.inr ⟨hdyn, hbehind⟩)).2
  have hblock : pageBlock (pageAddr e) ∈ takenBlocks g (walkCalls s.pages.mem (s.processes pProc)) :=
    List.mem_map.mpr ⟨_, List.mem_filter.mpr ⟨hcall, decide_eq_true htaken⟩, callBlock_entry hlt _⟩
  obtain ⟨h1, _, h3⟩ := (ho.held _ (hperm.mem_iff.mp hblock)).addr_le h
  rw [logical_entryAddr hlt] at hbehind
  rw [h.ends] at h3
  have h3' : pageAddr e + 4096 ≤ dynMemoryStartAddress + g.dynMemSize := h3
  have hoff : e % 4096 / 1024 * 1024 < 4096 := by omega
  omega

end

end Clubcos
