import Clubcos.Task.Pages

/-!
# Directory entries with a flag in bit 10 or 11

The walk keeps bits 10 and 11 of a directory entry as part of the address: it starts inside the page table and ends behind
it.

* `cleanupDirectory_calls`  every call is for a table, or for a word that the walk of a table reads;
* `skipped_frame`           a frame that no walk reads is not released;
* `cleanup_frees`           **when the memory of a process is given back**;
* `flag_skips`              a table with a flag in bit 10.
-/

set_option linter.unusedVariables false

namespace Clubcos
open Word

/-! ## what is read -/

/-- words are only set to zero -/
def Zeroes (g g' : Pages) : Prop := ∀ x, g'.mem x = g.mem x ∨ g'.mem x = 0

theorem Zeroes.trans {g g₁ g₂ : Pages} (h1 : Zeroes g g₁) (h2 : Zeroes g₁ g₂) : Zeroes g g₂ := by
  intro x
  rcases h2 x with e | e
  · rw [e]
    exact h1 x
  · exact Or.inr e

theorem Zeroes.of_ne {g g' : Pages} (h : Zeroes g g') {x : Nat} (hx : g'.mem x ≠ 0) : g'.mem x = g.mem x :=
  (h x).resolve_right hx

theorem Zeroes.write (g : Pages) (addr : Nat) : Zeroes g (g.write addr 0) := by
  intro x
  by_cases e : x = addr
  · exact Or.inr (e ▸ Function.update_self _ _ _)
  · exact Or.inl (Function.update_of_ne e _ _)

/-- the call is for the page of a word that is read -/
def TableReads (mem : Nat → Nat) (n a : Nat) (c : Nat × Nat) : Prop :=
  ∃ j < n, mem (u32 (a + 4 * j)) ≠ 0 ∧
    c = (ckDynMemPhysicalToLogical (entryAddr (mem (u32 (a + 4 * j)))), dynMemBuddyUnitSize)

theorem u32_add (a b : Nat) : u32 (u32 a + b) = u32 (a + b) := Nat.mod_add_mod a (2^32) b

/-- the words behind the first one -/
theorem TableReads.succ {g g' : Pages} (h : Zeroes g g') {n a : Nat} {c : Nat × Nat} (hc : TableReads g'.mem n (u32 (a + 4)) c) :
    TableReads g.mem (n + 1) a c := by
  obtain ⟨j, hj, h0, e⟩ := hc
  have haddr : u32 (u32 (a + 4) + 4 * j) = u32 (a + 4 * (j + 1)) := by
    rw [u32_add, Nat.add_assoc, Nat.mul_succ, Nat.add_comm 4]
  rw [haddr] at h0 e
  have hword := h.of_ne h0
  rw [hword] at h0 e
  exact ⟨j + 1, Nat.succ_lt_succ hj, h0, e⟩

theorem cleanupTable_calls (n : Nat) : ∀ (a : Nat) (g : Pages), a < 2^32 → Zeroes g (cleanupTable n a g) ∧
    ∃ cs, (cleanupTable n a g).freed = g.freed ++ cs ∧ ∀ c ∈ cs, TableReads g.mem n a c := by
  induction n with
  | zero =>
    intro a g _
    exact ⟨fun _ => Or.inl rfl, [], (List.append_nil _).symm, List.forall_mem_nil _⟩
  | succ n ih =>
    intro a g ha
    rw [cleanupTable]
    by_cases he : g.mem a ≠ 0 ∧ ckDynMemPhyIsDynMem (entryAddr (g.mem a)) = true
    · simp only [if_pos he]
      have hz : Zeroes g ((g.free (ckDynMemPhysicalToLogical (entryAddr (g.mem a))) dynMemBuddyUnitSize).write a 0) :=
        Zeroes.write _ a
      obtain ⟨hz', cs, hcs, hreads⟩ := ih (u32 (a + 4)) _ (u32_lt _)
      refine ⟨hz.trans hz', (ckDynMemPhysicalToLogical (entryAddr (g.mem a)), dynMemBuddyUnitSize) :: cs, ?_,
        List.forall_mem_cons.mpr ⟨?_, fun c hc => (hreads c hc).succ hz⟩⟩
      · rw [List.append_cons]
        exact hcs
      · refine ⟨0, Nat.succ_pos n, ?_, ?_⟩
        · rw [Nat.mul_zero, Nat.add_zero, u32_of_lt ha]
          exact he.1
        · rw [Nat.mul_zero, Nat.add_zero, u32_of_lt ha]
    · simp only [if_neg he]
      have hz : Zeroes g g := fun _ => Or.inl rfl
      obtain ⟨hz', cs, hcs, hreads⟩ := ih (u32 (a + 4)) g (u32_lt _)
      exact ⟨hz', cs, hcs, fun c hc => (hreads c hc).succ hz⟩

/-- the call is for the table of a directory entry, or for a word that the walk of this table reads -/
def DirReads (mem : Nat → Nat) (n d : Nat) (c : Nat × Nat) : Prop :=
  ∃ i < n, mem (u32 (d + 4 * i)) ≠ 0 ∧
    (c = (ckDynMemPhysicalToLogical (entryAddr (mem (u32 (d + 4 * i)))), dynMemBuddyUnitSize) ∨
      TableReads mem 1024 (ckDynMemPhysicalToLogical (entryAddr (mem (u32 (d + 4 * i))))) c)

theorem TableReads.zeroes {g g' : Pages} (h : Zeroes g g') {n a : Nat} {c : Nat × Nat} (hc : TableReads g'.mem n a c) :
    TableReads g.mem n a c := by
  obtain ⟨j, hj, h0, e⟩ := hc
  have hword := h.of_ne h0
  rw [hword] at h0 e
  exact ⟨j, hj, h0, e⟩

/-- the entries behind the first one -/
theorem DirReads.succ {g g' : Pages} (h : Zeroes g g') {n d : Nat} {c : Nat × Nat} (hc : DirReads g'.mem n (u32 (d + 4)) c) :
    DirReads g.mem (n + 1) d c := by
  obtain ⟨i, hi, h0, e⟩ := hc
  have haddr : u32 (u32 (d + 4) + 4 * i) = u32 (d + 4 * (i + 1)) := by
    rw [u32_add, Nat.add_assoc, Nat.mul_succ, Nat.add_comm 4]
  rw [haddr] at h0 e
  have hword := h.of_ne h0
  rw [hword] at h0 e
  exact ⟨i + 1, Nat.succ_lt_succ hi, h0, e.imp_right fun hr => hr.zeroes h⟩

/-- a walked table is freed, and its entry in the directory set to zero -/
theorem Zeroes.given_up {g g₀ : Pages} (h : Zeroes g g₀) {cs : List (Nat × Nat)} (hcs : g₀.freed = g.freed ++ cs)
    (ptbl dirptr : Nat) :
    let g' := (g₀.free ptbl dynMemBuddyUnitSize).write dirptr 0
    Zeroes g g' ∧ g'.freed = g.freed ++ (cs ++ [(ptbl, dynMemBuddyUnitSize)]) := by
  refine ⟨h.trans (Zeroes.write _ dirptr), ?_⟩
  show g₀.freed ++ _ = _
  rw [hcs, List.append_assoc]

theorem physicalToLogical_lt (p : Nat) : ckDynMemPhysicalToLogical p < 2^32 := Nat.mod_lt _ (Nat.two_pow_pos 32)

theorem cleanupDirectory_calls (n : Nat) : ∀ (d : Nat) (g : Pages), d < 2^32 →
    ∃ cs, (cleanupDirectory n d g).freed = g.freed ++ cs ∧ ∀ c ∈ cs, DirReads g.mem n d c := by
  induction n with
  | zero =>
    intro d g _
    exact ⟨[], (List.append_nil _).symm, List.forall_mem_nil _⟩
  | succ n ih =>
    intro d g hd
    rw [cleanupDirectory]
    by_cases he : g.mem d ≠ 0
    · simp only [if_pos he]
      obtain ⟨hz, cs, hcs, hreads⟩ := cleanupTable_calls 1024 (ckDynMemPhysicalToLogical (entryAddr (g.mem d))) g
        (physicalToLogical_lt _)
      obtain ⟨hz₁, hfreed⟩ := hz.given_up hcs (ckDynMemPhysicalToLogical (entryAddr (g.mem d))) d
      generalize ((cleanupTable 1024 (ckDynMemPhysicalToLogical (entryAddr (g.mem d))) g).free
        (ckDynMemPhysicalToLogical (entryAddr (g.mem d))) dynMemBuddyUnitSize).write d 0 = g₁ at hz₁ hfreed ⊢
      have hfirst : u32 (d + 4 * 0) = d := u32_of_lt hd
      obtain ⟨cs', hcs', hreads'⟩ := ih (u32 (d + 4)) g₁ (u32_lt _)
      refine ⟨cs ++ [(ckDynMemPhysicalToLogical (entryAddr (g.mem d)), dynMemBuddyUnitSize)] ++ cs', ?_, ?_⟩
      · rw [hcs', hfreed, List.append_assoc]
      · intro c hc
        rcases List.mem_append.mp hc with hc | hc
        · refine ⟨0, Nat.succ_pos n, ?_, ?_⟩
          · rw [hfirst]
            exact he
          · rw [hfirst]
            rcases List.mem_append.mp hc with hc | hc
            · exact Or.inr (hreads c hc)
            · exact Or.inl (List.mem_singleton.mp hc)
        · exact (hreads' c hc).succ hz₁
    · simp only [if_neg he]
      have hz : Zeroes g g := fun _ => Or.inl rfl
      obtain ⟨cs, hcs, hreads⟩ := ih (u32 (d + 4)) g (u32_lt _)
      exact ⟨cs, hcs, fun c hc => (hreads c hc).succ hz⟩

theorem DirReads.size {mem : Nat → Nat} {n d : Nat} {c : Nat × Nat} (h : DirReads mem n d c) :
    c.2 = dynMemBuddyUnitSize := by
  obtain ⟨_, _, _, e | ⟨_, _, _, e⟩⟩ := h <;> rw [e]

theorem cleanupPages_calls (s : Pages) {p : Process} (h0 : p.pageDirectory ≠ 0) (hlt : p.pageDirectory < 2^32) :
    ∃ cs, (cleanupPages s p).freed = s.freed ++ (cs ++ dirCalls p) ∧
      ∀ c ∈ cs, DirReads s.mem kernelPageDirNum p.pageDirectory c := by
  obtain ⟨cs, hcs, hreads⟩ := cleanupDirectory_calls kernelPageDirNum p.pageDirectory s hlt
  refine ⟨cs, ?_, hreads⟩
  unfold cleanupPages dirCalls
  rw [if_pos h0]
  simp only []
  generalize cleanupDirectory kernelPageDirNum p.pageDirectory s = s₁ at hcs ⊢
  split
  · rw [← List.append_assoc]
    exact congrArg (· ++ _) hcs
  · rw [List.append_nil]
    exact hcs

/-! ## what is missed -/

section
variable {g : DynMemStruct} {F : Set Nat} (h : Ready g F)
include h

/-- no frame is a table -/
theorem frame_ne_table {mem : Nat → Nat} {p : Process} (ho : Owns g F mem p) {f t : Nat}
    (hf : f ∈ framesOf g mem p.pageDirectory) (ht : t ∈ tablesOf mem p.pageDirectory) : f ≠ t := by
  have hf' : pageBlock f ∈ (framesOf g mem p.pageDirectory).map pageBlock := List.mem_map_of_mem hf
  have hap := (List.pairwise_append.mp ho.apart).2.2 _ hf' _ (List.mem_append_left _ (List.mem_map_of_mem ht))
  exact page_ne_of_apart h (ho.held _ (List.mem_append_left _ hf')) hap

/-- **A frame that no walk reads is not released.** -/
theorem skipped_frame {s : TaskStruct} {pProc : ProcPtr} (hparent : (s.processes pProc).pParentProcess ≠ none)
    (ho : Owns g F s.pages.mem (s.processes pProc)) {f : Nat}
    (hf : f ∈ framesOf g s.pages.mem (s.processes pProc).pageDirectory)
    (hskip : ∀ e ∈ dirWords s.pages.mem (s.processes pProc).pageDirectory, e ≠ 0 → ∀ j < 1024,
      s.pages.mem (u32 (ckDynMemPhysicalToLogical (entryAddr e) + 4 * j)) ≠ 0 →
      pageAddr (s.pages.mem (u32 (ckDynMemPhysicalToLogical (entryAddr e) + 4 * j))) ≠ f) :
    ¬ Cleans s pProc g F := by
  obtain ⟨h0, haligned, hlt⟩ := ho.directory
  obtain ⟨cs, hcs, hreads⟩ := cleanupPages_calls s.pages h0 hlt
  have hunit : dynMemBuddyUnitSize < 2^32 := by decide
  have hsize : ∀ c ∈ cs ++ dirCalls (s.processes pProc), c.2 < 2^32 := by
    intro c hc
    rcases List.mem_append.mp hc with hc | hc
    · rw [(hreads c hc).size]
      exact hunit
    · exact walkCalls_size ho c (List.mem_append_right _ hc)
  rw [cleans_iff h hparent ho hsize hcs]
  intro hperm
  have howned : pageBlock f ∈ ownedBlocks g s.pages.mem (s.processes pProc) :=
    List.mem_append_left _ (List.mem_map_of_mem hf)
  obtain ⟨c, hc, hblock⟩ := List.mem_map.mp (hperm.mem_iff.mpr howned)
  rcases List.mem_append.mp (List.mem_filter.mp hc).1 with hc | hc
  · obtain ⟨i, hi, hne, hcall⟩ := hreads c hc
    have hnum : kernelPageDirNum = 0x3f8 := rfl
    have hword : u32 ((s.processes pProc).pageDirectory + 4 * i) = (s.processes pProc).pageDirectory + 4 * i :=
      u32_of_lt (by omega)
    rw [hword] at hne hcall
    have hmem : s.pages.mem ((s.processes pProc).pageDirectory + 4 * i) ∈
        dirWords s.pages.mem (s.processes pProc).pageDirectory := List.mem_map_of_mem (List.mem_range.mpr hi)
    generalize s.pages.mem ((s.processes pProc).pageDirectory + 4 * i) = e at hne hcall hmem
    rcases hcall with rfl | ⟨j, hj, hw, rfl⟩
    · rw [callBlock_entry (dirWords_mem ho e hmem)] at hblock
      have ht : pageAddr e ∈ tablesOf s.pages.mem (s.processes pProc).pageDirectory :=
        List.mem_map_of_mem (List.mem_filter.mpr ⟨hmem, decide_eq_true hne⟩)
      exact frame_ne_table h ho hf ht (congrArg Block.addr hblock).symm
    · rw [callBlock_entry (ho.words _)] at hblock
      have haddr := congrArg Block.addr hblock
      exact hskip e hmem hne j hj hw haddr
  · unfold dirCalls at hc
    split at hc
    · obtain rfl := List.mem_singleton.mp hc
      have hround : (s.processes pProc).pageDirectory / 4096 * 4096 = f := congrArg Block.addr hblock
      exact ho.notDirectory f (List.mem_append_left _ hf) (by omega)
    · cases hc

/-! ## a directory with such an entry -/

omit h in
/-- of the tables with a flag above bit 9, the one with the lowest address -/
theorem lowest_flagged {mem : Nat → Nat} {pdir : Nat} (hflags : ¬ FlagsClear mem pdir) :
    ∃ e ∈ dirWords mem pdir, 1024 ≤ e % 4096 ∧ ∀ e' ∈ dirWords mem pdir, 1024 ≤ e' % 4096 → pageAddr e ≤ pageAddr e' := by
  classical
  unfold FlagsClear at hflags
  have hex : ∃ n, ∃ e ∈ dirWords mem pdir, 1024 ≤ e % 4096 ∧ pageAddr e = n := by
    simp only [not_forall, Nat.not_lt] at hflags
    obtain ⟨e, he, hflag⟩ := hflags
    exact ⟨_, e, he, hflag, rfl⟩
  obtain ⟨e, he, hflag, haddr⟩ := Nat.find_spec hex
  refine ⟨e, he, hflag, fun e' he' hflag' => ?_⟩
  rw [haddr]
  exact Nat.find_min' hex ⟨e', he', hflag', rfl⟩

/-- the directory, and one more word -/
def loneWord (mem : Nat → Nat) (pdir addr w : Nat) : Nat → Nat := fun a =>
  if pdir ≤ a ∧ a < pdir + 4 * kernelPageDirNum then mem a else if a = addr then w else 0

/-- a page of the heap that is allocated, and no table of the process nor part of its directory -/
structure Spare (g : DynMemStruct) (F : Set Nat) (mem : Nat → Nat) (p : Process) (f : Nat) : Prop where
  held : Allocated g F (pageBlock f)
  notDirectory : f ≠ p.pageDirectory
  apart : ∀ b ∈ (tablesOf mem p.pageDirectory).map pageBlock ++ dirBlock p, (pageBlock f).apart g.beginAddr b

/-- `w` is the entry of the page `f`, without flags -/
structure EntryOf (g : DynMemStruct) (w f : Nat) : Prop where
  ne_zero : w ≠ 0
  lt : w < 2^32
  page : pageAddr w = f
  frame : IsFrame g w
  call : ckDynMemPhysicalToLogical (entryAddr w) = f

theorem entry_of_page {f : Nat} (hf : Allocated g F (pageBlock f)) : ∃ w, EntryOf g w f := by
  obtain ⟨h1, h2, h3⟩ := hf.addr_le h
  have h1' : f % 4096 = 0 := h1
  have h2' : g.beginAddr ≤ f := h2
  have h3' : f + 4096 ≤ g.beginAddr + g.countOfUnitBlock * 4096 := h3
  have hends := h.ends
  have hfits := h.pool.geometry.fits
  have hiomap : iomapMemoryStartAddress = 0xbf800000 := rfl
  have hlt : f + 0x800000 < 2^32 := by omega
  have hpage : pageAddr (f + 0x800000) = f := by
    unfold pageAddr entryPage
    rw [physicalToLogical_eq (by omega)]
    omega
  refine ⟨f + 0x800000, by omega, hlt, hpage, ?_, ?_⟩
  · unfold IsFrame
    rw [hpage]
    omega
  · rw [logical_entryAddr hlt, hpage]
    omega

section
variable {mem : Nat → Nat} {p : Process} (ho : Owns g F mem p)
include ho

theorem tables_nodup : (tablesOf mem p.pageDirectory).Nodup := by
  refine (tables_apart h ho).imp fun {t t'} hclear => ?_
  unfold Clear at hclear
  omega

theorem loneWord_table {addr w t : Nat} (ht : t ∈ tablesOf mem p.pageDirectory) {x : Nat} (h1 : t ≤ x) (h2 : x < t + 4096) :
    loneWord mem p.pageDirectory addr w x = if x = addr then w else 0 := by
  have hnum : kernelPageDirNum = 0x3f8 := rfl
  have hclear := (table_clear h ho ht).2.2.2
  unfold Clear at hclear
  exact if_neg fun hx => by omega

theorem loneWord_other {addr w t : Nat} (haddr : addr ∈ tablesOf mem p.pageDirectory) (ht : t ∈ tablesOf mem p.pageDirectory)
    (hne : t ≠ addr) : (tableWords (loneWord mem p.pageDirectory addr w) t).filter (· ≠ 0) = [] := by
  have ha4 := (table_clear h ho haddr).1
  have ht4 := (table_clear h ho ht).1
  rw [List.filter_eq_nil_iff]
  intro e he
  obtain ⟨j, hj, rfl⟩ := List.mem_map.mp he
  have hlt := List.mem_range.mp hj
  rw [loneWord_table h ho ht (by omega) (by omega), if_neg (by omega)]
  simp

theorem loneWord_self {addr w : Nat} (haddr : addr ∈ tablesOf mem p.pageDirectory) (hw : w ≠ 0) :
    (tableWords (loneWord mem p.pageDirectory addr w) addr).filter (· ≠ 0) = [w] := by
  have hfirst : loneWord mem p.pageDirectory addr w addr = w := by
    rw [loneWord_table h ho haddr (Nat.le_refl _) (by omega), if_pos rfl]
  have hrest : ((List.range 1023).map fun j => loneWord mem p.pageDirectory addr w (addr + 4 + 4 * j)).filter (· ≠ 0) = [] := by
    rw [List.filter_eq_nil_iff]
    intro e he
    obtain ⟨j, hj, rfl⟩ := List.mem_map.mp he
    have hlt := List.mem_range.mp hj
    rw [loneWord_table h ho haddr (by omega) (by omega), if_neg (by omega)]
    simp
  rw [tableWords, words_succ _ 1023, hfirst, List.filter_cons, if_pos (decide_eq_true hw), hrest]

/-- the only entry of the tables -/
theorem loneWord_entries {addr w : Nat} (haddr : addr ∈ tablesOf mem p.pageDirectory) (hw : w ≠ 0) :
    tablesOf (loneWord mem p.pageDirectory addr w) p.pageDirectory = tablesOf mem p.pageDirectory ∧
    frameEntries (loneWord mem p.pageDirectory addr w) p.pageDirectory = [w] := by
  have hdir : dirWords (loneWord mem p.pageDirectory addr w) p.pageDirectory = dirWords mem p.pageDirectory :=
    words_congr fun x h1 h2 => if_pos ⟨h1, h2⟩
  have htables : tablesOf (loneWord mem p.pageDirectory addr w) p.pageDirectory = tablesOf mem p.pageDirectory := by
    unfold tablesOf
    rw [hdir]
  have hother := fun t ht => loneWord_other h ho (w := w) haddr (t := t) ht
  refine ⟨htables, ?_⟩
  obtain ⟨l₁, l₂, hl⟩ := List.append_of_mem haddr
  have hnodup := tables_nodup h ho
  unfold frameEntries
  rw [htables]
  rw [hl] at hnodup hother ⊢
  have hnot₁ : ∀ t ∈ l₁, t ≠ addr := fun t ht e => (List.nodup_append.mp hnodup).2.2 t ht addr List.mem_cons_self e
  have hnot₂ : ∀ t ∈ l₂, t ≠ addr := fun t ht e => (List.nodup_cons.mp (List.nodup_append.mp hnodup).2.1).1 (e ▸ ht)
  have hnil₁ := List.flatMap_eq_nil_iff.mpr fun t ht => hother t (List.mem_append_left _ ht) (hnot₁ t ht)
  have hnil₂ := List.flatMap_eq_nil_iff.mpr fun t ht =>
    hother t (List.mem_append_right _ (List.mem_cons_of_mem _ ht)) (hnot₂ t ht)
  rw [List.flatMap_append, List.flatMap_cons, hnil₁, hnil₂, loneWord_self h ho haddr hw]
  rfl

theorem loneWord_owns {f addr w : Nat} (hf : Spare g F mem p f) (haddr : addr ∈ tablesOf mem p.pageDirectory)
    (hw : EntryOf g w f) :
    framesOf g (loneWord mem p.pageDirectory addr w) p.pageDirectory = [f] ∧
    Owns g F (loneWord mem p.pageDirectory addr w) p ∧ NoneBehind g (loneWord mem p.pageDirectory addr w) p.pageDirectory := by
  obtain ⟨htables, hentries⟩ := loneWord_entries h ho haddr hw.ne_zero
  have hframes : framesOf g (loneWord mem p.pageDirectory addr w) p.pageDirectory = [f] := by
    unfold framesOf
    rw [hentries, List.filter_cons, if_pos (decide_eq_true hw.frame), List.filter_nil, List.map_singleton, hw.page]
  have howned : ownedBlocks g (loneWord mem p.pageDirectory addr w) p =
      pageBlock f :: ((tablesOf mem p.pageDirectory).map pageBlock ++ dirBlock p) := by
    unfold ownedBlocks
    rw [hframes, htables, List.map_singleton, List.singleton_append]
  refine ⟨hframes, ⟨fun a => ?_, ho.directory, ?_, ?_, ?_⟩, ?_⟩
  · unfold loneWord
    split
    · exact ho.words a
    · split
      · exact hw.lt
      · exact Nat.two_pow_pos 32
  · rw [howned]
    exact List.forall_mem_cons.mpr ⟨hf.held, fun b hb => ho.held b (List.mem_append_right _ hb)⟩
  · rw [howned]
    exact List.pairwise_cons.mpr ⟨hf.apart, (List.pairwise_append.mp ho.apart).2.1⟩
  · rw [hframes, htables, List.singleton_append]
    exact List.forall_mem_cons.mpr ⟨hf.notDirectory, fun t ht => ho.notDirectory t (List.mem_append_right _ ht)⟩
  · unfold NoneBehind
    rw [hentries]
    intro e he _
    obtain rfl := List.mem_singleton.mp he
    have htop : f + 4096 ≤ g.beginAddr + g.countOfUnitBlock * 4096 := (hf.held.addr_le h).2.2
    rw [hw.call, ← h.ends]
    omega

/-- no walk comes to the first word of the lowest table with a flag above bit 9 -/
theorem lowest_not_read {e₀ : Nat} (he₀ : e₀ ∈ dirWords mem p.pageDirectory) (hflag : 1024 ≤ e₀ % 4096)
    (hlow : ∀ e ∈ dirWords mem p.pageDirectory, 1024 ≤ e % 4096 → pageAddr e₀ ≤ pageAddr e)
    {e : Nat} (he : e ∈ dirWords mem p.pageDirectory) (hne : e ≠ 0) {j : Nat} (hj : j < 1024) :
    u32 (ckDynMemPhysicalToLogical (entryAddr e) + 4 * j) % 4 = 0 ∧
      u32 (ckDynMemPhysicalToLogical (entryAddr e) + 4 * j) ≠ pageAddr e₀ := by
  have hmem : ∀ e ∈ dirWords mem p.pageDirectory, e ≠ 0 → pageAddr e ∈ tablesOf mem p.pageDirectory :=
    fun e he h0 => List.mem_map_of_mem (List.mem_filter.mpr ⟨he, decide_eq_true h0⟩)
  have hne₀ : e₀ ≠ 0 := by omega
  obtain ⟨h1, _, h3, _⟩ := table_clear h ho (hmem e he hne)
  obtain ⟨h1', _⟩ := table_clear h ho (hmem e₀ he₀ hne₀)
  have hfits := h.pool.geometry.fits
  have hiomap : iomapMemoryStartAddress = 0xbf800000 := rfl
  have haddr := logical_entryAddr (dirWords_mem ho e he)
  rw [u32_of_lt (by omega), haddr]
  refine ⟨by omega, fun heq => ?_⟩
  rcases Nat.lt_or_ge (e % 4096) 1024 with hclear | hflag'
  · -- the walk stays in its table, which is another one
    have hsame : pageAddr e = pageAddr e₀ := by omega
    have hinj := List.inj_on_of_nodup_map (tables_nodup h ho)
      (List.mem_filter.mpr ⟨he, decide_eq_true hne⟩) (List.mem_filter.mpr ⟨he₀, decide_eq_true hne₀⟩) hsame
    omega
  · -- the walk of a flagged table reads on into the page behind it, but such a table lies above
    have := hlow e he hflag'
    omega

end

/-- the state with other words in its pages -/
def TaskStruct.setWords (s : TaskStruct) (mem : Nat → Nat) : TaskStruct := { s with pages := { s.pages with mem := mem } }

/-- **A directory with a flag above bit 9**: there are contents of its tables with which a frame is not released. -/
theorem flagged_misses {s : TaskStruct} {pProc : ProcPtr} (hparent : (s.processes pProc).pParentProcess ≠ none)
    (ho : Owns g F s.pages.mem (s.processes pProc)) {f : Nat} (hf : Spare g F s.pages.mem (s.processes pProc) f)
    (hflags : ¬ FlagsClear s.pages.mem (s.processes pProc).pageDirectory) :
    ∃ mem, dirWords mem (s.processes pProc).pageDirectory = dirWords s.pages.mem (s.processes pProc).pageDirectory ∧
      Owns g F mem (s.processes pProc) ∧ NoneBehind g mem (s.processes pProc).pageDirectory ∧
      ¬ Cleans (s.setWords mem) pProc g F := by
  obtain ⟨e₀, he₀, hflag, hlow⟩ := lowest_flagged hflags
  obtain ⟨w, hw⟩ := entry_of_page h hf.held
  have htable : pageAddr e₀ ∈ tablesOf s.pages.mem (s.processes pProc).pageDirectory :=
    List.mem_map_of_mem (List.mem_filter.mpr ⟨he₀, decide_eq_true (by omega)⟩)
  obtain ⟨hframes, howns, hnone⟩ := loneWord_owns h ho hf htable hw
  have hdir : dirWords (loneWord s.pages.mem (s.processes pProc).pageDirectory (pageAddr e₀) w)
      (s.processes pProc).pageDirectory = dirWords s.pages.mem (s.processes pProc).pageDirectory :=
    words_congr fun x h1 h2 => if_pos ⟨h1, h2⟩
  refine ⟨_, hdir, howns, hnone, ?_⟩
  refine skipped_frame h (s := s.setWords _) hparent howns (hframes ▸ List.mem_singleton_self f) ?_
  intro e he hne j hj hword
  have he' : e ∈ dirWords s.pages.mem (s.processes pProc).pageDirectory := hdir ▸ he
  obtain ⟨h4, hnot⟩ := lowest_not_read h ho he₀ hflag hlow he' hne hj
  generalize u32 (ckDynMemPhysicalToLogical (entryAddr e) + 4 * j) = x at h4 hnot hword ⊢
  by_cases hx : (s.processes pProc).pageDirectory ≤ x ∧ x < (s.processes pProc).pageDirectory + 4 * kernelPageDirNum
  · have hsame : (s.setWords (loneWord s.pages.mem (s.processes pProc).pageDirectory (pageAddr e₀) w)).pages.mem x =
        s.pages.mem x := if_pos hx
    rw [hsame] at hword ⊢
    -- a word of the directory is the entry of a table
    have haligned := ho.directory.2.1
    have hentry : s.pages.mem x ∈ dirWords s.pages.mem (s.processes pProc).pageDirectory := by
      have hindex : (s.processes pProc).pageDirectory + 4 * ((x - (s.processes pProc).pageDirectory) / 4) = x := by omega
      have hmem := congrArg s.pages.mem hindex
      exact List.mem_map.mpr ⟨_, List.mem_range.mpr (by omega), hmem⟩
    have ht : pageAddr (s.pages.mem x) ∈ tablesOf s.pages.mem (s.processes pProc).pageDirectory :=
      List.mem_map_of_mem (List.mem_filter.mpr ⟨hentry, decide_eq_true hword⟩)
    exact (page_ne_of_apart h hf.held (hf.apart _ (List.mem_append_left _ (List.mem_map_of_mem ht)))).symm
  · have hzero : (s.setWords (loneWord s.pages.mem (s.processes pProc).pageDirectory (pageAddr e₀) w)).pages.mem x = 0 :=
      (if_neg hx).trans (if_neg hnot)
    exact absurd hzero hword

end

/-! ## any process, in any run of the heap -/

/-- **The memory of a process that ends.**  If bits 10 and 11 of its directory entries are clear, it is given back if and only
if no table entry makes the walk release the page behind the heap.  If one of them is set, there are contents of the page
tables with which it is not given back, as long as there is a page for them. -/
theorem cleanup_frees {bytes : Nat → BitVec 8} {dynMemSize : Nat} (hmb : 2^20 ∣ dynMemSize) (h1 : 23 * 2^20 ≤ dynMemSize)
    (h2 : dynMemSize ≤ iomapMemoryStartAddress - dynMemoryStartAddress) {g : DynMemStruct} {live : List Block}
    (hrun : Run (ckDynMemInitialize bytes dynMemSize) g live) {s : TaskStruct} {pProc : ProcPtr}
    (hparent : (s.processes pProc).pParentProcess ≠ none)
    (ho : Owns g (freeUnits g live) s.pages.mem (s.processes pProc)) :
    (FlagsClear s.pages.mem (s.processes pProc).pageDirectory →
      (Cleans s pProc g (freeUnits g live) ↔ NoneBehind g s.pages.mem (s.processes pProc).pageDirectory)) ∧
    (¬ FlagsClear s.pages.mem (s.processes pProc).pageDirectory →
      ∀ f, Spare g (freeUnits g live) s.pages.mem (s.processes pProc) f →
      ∃ mem, dirWords mem (s.processes pProc).pageDirectory = dirWords s.pages.mem (s.processes pProc).pageDirectory ∧
        Owns g (freeUnits g live) mem (s.processes pProc) ∧ NoneBehind g mem (s.processes pProc).pageDirectory ∧
        ¬ Cleans (s.setWords mem) pProc g (freeUnits g live)) := by
  have hready := hrun.ready hmb h1 h2
  exact ⟨flagsClear_cleans_iff hready hparent ho, fun hflags f hf => flagged_misses hready hparent ho hf hflags⟩

/-! ## a process with one page -/

/-- four pages, allocated together -/
def testHeap : DynMemStruct := ((ckDynMemAllocate firstMemory 0x4000).map Prod.snd).getD firstMemory

/-- the directory, the page table and the frame, held page by page -/
def testLive : List Block := [⟨0x17f9000, 4096⟩, ⟨0x17fa000, 4096⟩, ⟨0x17fb000, 4096⟩, ⟨0x17fc000, 4096⟩]

theorem testHeap_run : Run firstMemory testHeap testLive := by
  have haddr : (ckDynMemAllocate firstMemory 0x4000).map Prod.fst = some 0x17f9000 := by decide +kernel
  obtain ⟨⟨addr, g⟩, hr, rfl⟩ := Option.map_eq_some_iff.mp haddr
  have hheap : testHeap = g := by
    unfold testHeap
    rw [hr]
    rfl
  rw [hheap]
  have halloc := Run.alloc Run.init (by decide : 1 ≤ 0x4000) (by decide) hr
  exact halloc.pages (k := 2) List.mem_cons_self rfl

/-- the entry of the page table has these flags, and the first entry of the page table is a frame -/
def testPages (flags : Nat) : Nat → Nat := fun a =>
  if a = 0x17f9000 then 0x1ffa000 + flags else if a = 0x17fa000 then 0x1ffb003 else 0

/-- the process that `ckCoshellCmdTestProcess` creates, with these pages -/
def testState (flags : Nat) : TaskStruct :=
  (ckProcessCreate (ckTaskStructInitialize 0 (testPages flags)) 0 0 .normal 0x17f9000 4096 0x1ff9000 ⟨0x102000⟩
    kernelProcessId).2

def testProcess : ProcPtr := ⟨1, by decide⟩

theorem testState_process (flags : Nat) : (testState flags).pages.mem = testPages flags ∧
    ((testState flags).processes testProcess).pageDirectory = 0x17f9000 ∧
    ((testState flags).processes testProcess).pageDirSize = 4096 ∧
    ((testState flags).processes testProcess).pParentProcess = some kernelProcess := ⟨rfl, rfl, rfl, rfl⟩

theorem testHeap_inv : Inv testHeap testLive ∧ SameLayout firstMemory testHeap := testHeap_run.inv firstMemory_inv

theorem testState_owns (flags : Nat) (hflags : flags < 4096) (htables : tablesOf (testPages flags) 0x17f9000 = [0x17fa000])
    (hentries : frameEntries (testPages flags) 0x17f9000 = [0x1ffb003]) :
    framesOf testHeap (testPages flags) 0x17f9000 = [0x17fb000] ∧
    Owns testHeap (freeUnits testHeap testLive) (testState flags).pages.mem ((testState flags).processes testProcess) := by
  obtain ⟨hinv, hl⟩ := testHeap_inv
  obtain ⟨hmem, hdir, hsize, _⟩ := testState_process flags
  have hbegin : testHeap.beginAddr = 0x101000 := by
    have h1 : testHeap.beginAddr = firstMemory.beginAddr := hl.beginAddr
    rw [h1]
    decide +kernel
  have hcount : testHeap.countOfUnitBlock = 0x16ff := by
    have h1 : testHeap.countOfUnitBlock = firstMemory.countOfUnitBlock := hl.countOfUnitBlock
    rw [h1]
    decide +kernel
  have hpage : pageAddr 0x1ffb003 = 0x17fb000 := by decide
  have hframe : IsFrame testHeap 0x1ffb003 := by
    unfold IsFrame
    rw [hpage, hbegin, hcount]
    decide
  have hframes : framesOf testHeap (testPages flags) 0x17f9000 = [0x17fb000] := by
    unfold framesOf
    rw [hentries, List.filter_cons, if_pos (decide_eq_true hframe), List.filter_nil, List.map_singleton, hpage]
  have howned : ownedBlocks testHeap (testState flags).pages.mem ((testState flags).processes testProcess) =
      [⟨0x17fb000, 4096⟩, ⟨0x17fa000, 4096⟩, ⟨0x17f9000, 4096⟩] := by
    unfold ownedBlocks dirBlock
    rw [hmem, hdir, hsize, hframes, htables]
    rfl
  have hperm : testLive.Perm [⟨0x17fb000, 4096⟩, ⟨0x17fa000, 4096⟩, ⟨0x17f9000, 4096⟩, ⟨0x17fc000, 4096⟩] := by decide
  refine ⟨hframes, ⟨?_, ?_, ?_, ?_, ?_⟩⟩
  · intro a
    rw [hmem]
    unfold testPages
    split
    · omega
    · split <;> omega
  · rw [hdir]
    decide
  · rw [howned]
    intro b hb
    have hb' : b ∈ testLive := hperm.mem_iff.mpr (List.mem_append_left [_] hb)
    exact hinv.allocated hb'
  · rw [howned]
    exact (List.pairwise_append.mp (hinv.perm hperm).apart).1
  · rw [hmem, hdir, hframes, htables]
    decide

theorem cleanup_frees_test : Cleans (testState 3) testProcess testHeap (freeUnits testHeap testLive) := by
  obtain ⟨hmem, hdir, _, hparent⟩ := testState_process 3
  have hentries : frameEntries (testPages 3) 0x17f9000 = [0x1ffb003] := by decide +kernel
  have ho := (testState_owns 3 (by decide) (by decide +kernel) hentries).2
  have hflags : FlagsClear (testState 3).pages.mem ((testState 3).processes testProcess).pageDirectory := by
    rw [hmem, hdir]
    unfold FlagsClear
    decide +kernel
  refine ((cleanup_frees (by decide) (by decide) (by decide) testHeap_run (by rw [hparent]; nofun) ho).1 hflags).mpr ?_
  rw [hmem, hdir]
  intro e he _
  rw [hentries] at he
  obtain rfl := List.mem_singleton.mp he
  have hsize : testHeap.dynMemSize = 0x1700000 := testHeap_inv.2.dynMemSize
  rw [hsize]
  decide

/-- **The page table is entered with bit 10 set**: its first frame is never released. -/
theorem flag_skips :
    Run firstMemory testHeap testLive ∧
    Owns testHeap (freeUnits testHeap testLive) (testState 0x403).pages.mem ((testState 0x403).processes testProcess) ∧
    ¬ Cleans (testState 0x403) testProcess testHeap (freeUnits testHeap testLive) := by
  obtain ⟨hmem, hdir, _, hparent⟩ := testState_process 0x403
  have hentries : frameEntries (testPages 0x403) 0x17f9000 = [0x1ffb003] := by decide +kernel
  obtain ⟨hframes, ho⟩ := testState_owns 0x403 (by decide) (by decide +kernel) hentries
  refine ⟨testHeap_run, ho, ?_⟩
  have hready : Ready testHeap (freeUnits testHeap testLive) := testHeap_run.ready (by decide) (by decide) (by decide)
  apply skipped_frame hready (by rw [hparent]; nofun) ho (f := 0x17fb000)
  · rw [hmem, hdir, hframes]
    exact List.mem_singleton_self _
  · rw [hmem, hdir]
    intro e he hne
    have hentry : (dirWords (testPages 0x403) 0x17f9000).filter (· ≠ 0) = [0x1ffa403] := by decide +kernel
    have he' : e ∈ (dirWords (testPages 0x403) 0x17f9000).filter (· ≠ 0) := List.mem_filter.mpr ⟨he, decide_eq_true hne⟩
    rw [hentry] at he'
    obtain rfl := List.mem_singleton.mp he'
    decide +kernel

end Clubcos
