import Clubcos.Task.Flags
import Clubcos.Task.History

/-!
# What a call gives back

A call cleans up one process at most, and makes one task slot free at most.

* `TaskStruct.reclaimed`   the pages after that;
* `exec_pages`   **the process and the slot are those that the events of the call say**;
* `GivesBack`    the calls of `ckDynMemFree` in one `csCleanupProcess`;
* `Reclaims`     what a call does to the memory of the processes.
-/

set_option linter.unusedVariables false

namespace Clubcos
open Word

@[simp] theorem Pages.free_freed (g : Pages) (addr size : Nat) : (g.free addr size).freed = g.freed ++ [(addr, size)] := rfl

@[simp] theorem Pages.free_mem (g : Pages) (addr size : Nat) : (g.free addr size).mem = g.mem := rfl

@[simp] theorem Pages.free_cleaned (g : Pages) (addr size : Nat) : (g.free addr size).cleaned = g.cleaned := rfl

@[simp] theorem Pages.write_freed (g : Pages) (addr v : Nat) : (g.write addr v).freed = g.freed := rfl

@[simp] theorem Pages.write_cleaned (g : Pages) (addr v : Nat) : (g.write addr v).cleaned = g.cleaned := rfl

theorem Pages.write_mem (g : Pages) {addr v x : Nat} (h : x ≠ addr) : (g.write addr v).mem x = g.mem x :=
  Function.update_of_ne h _ _

/-! ## a process and a slot -/

/-- the task whose slot a call makes free -/
def reapedBy (s : TaskStruct) : Op → Option TaskPtr
  | .idleReap =>
    match popTask s .waitForExit with
    | some (t, _) => t
    | none => none
  | op => (endedBy s op).bind fun t => if t = s.pNow then none else some t

def cleanedUp (s : TaskStruct) : Option ProcPtr → Pages
  | none => s.pages
  | some p => (cleanupPages s.pages (s.processes p)).clean p

/-- the call for the stack of a slot that becomes free -/
def stackCalls (s : TaskStruct) : Option TaskPtr → List (Nat × Nat)
  | none => []
  | some t => if (s.tasks t).stack ≠ 0 then [((s.tasks t).stack, (s.tasks t).stacksize)] else []

/-- the pages after the process `r` was cleaned up and the slot `t` has become free -/
def TaskStruct.reclaimed (s : TaskStruct) (r : Option ProcPtr) (t : Option TaskPtr) : Pages :=
  { cleanedUp s r with freed := (cleanedUp s r).freed ++ stackCalls s t }

theorem reclaimed_none (s : TaskStruct) : s.reclaimed none none = s.pages := by
  show ({ s.pages with freed := s.pages.freed ++ [] } : Pages) = _
  rw [List.append_nil]

theorem cleanupPages_congr (g : Pages) {p q : Process} (h1 : p.pageDirectory = q.pageDirectory)
    (h2 : p.pageDirSize = q.pageDirSize) : cleanupPages g p = cleanupPages g q := by
  unfold cleanupPages
  simp only [h1, h2]

/-- the rest of the state does not matter -/
theorem reclaimed_congr {s s₁ : TaskStruct} {r : Option ProcPtr} {u : TaskPtr} (hpages : s₁.pages = s.pages)
    (hproc : ∀ p, (s₁.processes p).pageDirectory = (s.processes p).pageDirectory ∧
      (s₁.processes p).pageDirSize = (s.processes p).pageDirSize)
    (hstack : (s₁.tasks u).stack = (s.tasks u).stack ∧ (s₁.tasks u).stacksize = (s.tasks u).stacksize) :
    s₁.reclaimed r (some u) = s.reclaimed r (some u) := by
  have hclean : cleanedUp s₁ r = cleanedUp s r := by
    cases r with
    | none => exact hpages
    | some p =>
      show (cleanupPages s₁.pages (s₁.processes p)).clean p = (cleanupPages s.pages (s.processes p)).clean p
      rw [hpages, cleanupPages_congr s.pages (hproc p).1 (hproc p).2]
  have hcalls : stackCalls s₁ (some u) = stackCalls s (some u) := by
    show (if (s₁.tasks u).stack ≠ 0 then [((s₁.tasks u).stack, (s₁.tasks u).stacksize)] else []) = _
    rw [hstack.1, hstack.2]
    rfl
  unfold TaskStruct.reclaimed
  rw [hclean, hcalls]

theorem reap_pages {s s' : TaskStruct} {u : TaskPtr} {r : Option ProcPtr} (h : reap s u r = some s') :
    s'.pages = s.reclaimed r (some u) := by
  unfold reap at h
  obtain ⟨s₁, h₁, h⟩ := Option.bind_eq_some_iff.mp h
  have hclean : s₁.pages = cleanedUp s r ∧ s₁.tasks = s.tasks := by
    cases r with
    | none =>
      cases h₁
      exact ⟨rfl, rfl⟩
    | some p =>
      obtain ⟨q, _, h₁⟩ := Option.bind_eq_some_iff.mp h₁
      cases h₁
      exact ⟨rfl, rfl⟩
  obtain ⟨hpages, htasks⟩ := hclean
  cases h
  show (if (s₁.tasks u).stack ≠ 0 then _ else _ : TaskStruct).pages = { cleanedUp s r with
    freed := (cleanedUp s r).freed ++ if (s.tasks u).stack ≠ 0 then [((s.tasks u).stack, (s.tasks u).stacksize)] else [] }
  rw [htasks, ← hpages]
  by_cases hs : (s.tasks u).stack ≠ 0
  · rw [if_pos hs, if_pos hs]
    rfl
  · rw [if_neg hs, if_neg hs, List.append_nil]

/-! ## termination -/

theorem killOther_pages {s s' : TaskStruct} {u : TaskPtr} {r : Option ProcPtr} (h : killOther s u r = some s') :
    s'.pages = s.reclaimed r (some u) := by
  unfold killOther at h
  split at h
  · simp only [] at h
    split at h
    · rw [reap_pages h]
      exact reclaimed_congr rfl (fun p => ⟨rfl, rfl⟩)
        ⟨setTask_keep _ u (fun t => { t with waitObj := none }) Task.stack rfl u,
          setTask_keep _ u (fun t => { t with waitObj := none }) Task.stacksize rfl u⟩
    · cases h
  · split at h
    · rw [reap_pages h]
      exact reclaimed_congr rfl (fun p => ⟨rfl, rfl⟩) ⟨rfl, rfl⟩
    · cases h

theorem switchTo_pages (s : TaskStruct) (t : TaskPtr) (hw : Bool) : (switchTo s t hw).pages = s.pages := by
  obtain ⟨cpu, cpu', e⟩ := switchTo_eq s t hw
  rw [e]

theorem schedule_pages {s s' : TaskStruct} {b hw : Bool} (h : ckTaskSchedule_internal s hw = some (b, s')) :
    s'.pages = s.pages := by
  obtain ⟨g, count, ⟨_, rfl⟩ | ⟨_, t, rfl⟩⟩ := schedule_frame h
  · rfl
  · exact switchTo_pages { s with nodes := g, executeCount := count } t hw

/-- the pages and what is given back of the slots -/
theorem Departed.kept {s s' : TaskStruct} {u : TaskPtr} {r : Option ProcPtr} (hd : Departed s u r s') :
    (∀ p, (s'.processes p).pageDirectory = (s.processes p).pageDirectory ∧
      (s'.processes p).pageDirSize = (s.processes p).pageDirSize) ∧
    ∀ j, (s'.tasks j).stack = (s.tasks j).stack ∧ (s'.tasks j).stacksize = (s.tasks j).stacksize := by
  constructor
  · intro p
    obtain ⟨q, _, ⟨_, _, h, _⟩ | ⟨_, _, h, _⟩⟩ := hd.process
    · rw [h]
      exact ⟨rfl, rfl⟩
    · rw [h]
      by_cases e : p = q
      · rw [e, Function.update_self]
        exact ⟨rfl, rfl⟩
      · rw [Function.update_of_ne e]
        exact ⟨rfl, rfl⟩
  · intro j
    rw [hd.tasks]
    unfold departedTask awake
    constructor <;> split <;> split <;> rfl

theorem terminate_pages {s s' : TaskStruct} {u : TaskPtr} {hw : Bool} (hi : TaskInv s) (hu : (s.tasks u).Live)
    (h : ckTaskTerminate_internal s u hw = some s') :
    s'.pages = if u = s.pNow then s.pages else s.reclaimed (mainOf s u) (some u) := by
  obtain ⟨⟨r, s₁⟩, h₁, h⟩ := Option.bind_eq_some_iff.mp h
  obtain ⟨r', s₁', e, hd, _⟩ := depart_spec hi.1 hu
  obtain ⟨rfl, rfl⟩ := Prod.mk.inj (Option.some.inj (e.symm.trans h₁))
  have hpages : s₁'.pages = s.pages := by
    obtain ⟨f, procs, g, threads, last, rfl, _⟩ := depart_frame h₁
    rfl
  have h : (if u = s₁'.pNow then exitSelf s₁' u hw else killOther s₁' u r') = some s' := h
  rw [hd.now] at h
  split at h
  · next hnow =>
    rw [if_pos hnow, ← hpages]
    obtain ⟨g, count, t, rfl⟩ := exitSelf_frame h
    exact switchTo_pages { exiting s₁' u with nodes := g, executeCount := count } t hw
  · next hnow =>
    rw [if_neg hnow, ← hd.mainOf, killOther_pages h]
    exact reclaimed_congr hpages hd.kept.1 (hd.kept.2 u)

theorem reapedBy_of_end {s : TaskStruct} {op : Op} {o : Option TaskPtr} (h : endedBy s op = o) (hne : op ≠ .idleReap) :
    reapedBy s op = o.bind fun t => if t = s.pNow then none else some t := by
  rw [← h]
  cases op with
  | idleReap => exact absurd rfl hne
  | _ => rfl

/-- a call that ends a task -/
theorem terminated_pages {s s' : TaskStruct} {op : Op} {u : TaskPtr} {hw : Bool} (hi : TaskInv s)
    (hu : (s.tasks u).Live) (hend : endedBy s op = some u) (hne : op ≠ .idleReap)
    (h : ckTaskTerminate_internal s u hw = some s') : s'.pages = s.reclaimed (cleanedBy s op) (reapedBy s op) := by
  rw [terminate_pages hi hu h, reapedBy_of_end hend hne, cleanedBy_of_end hend hne]
  show _ = s.reclaimed (if u = s.pNow then none else mainOf s u) (if u = s.pNow then none else some u)
  split
  · exact (reclaimed_none s).symm
  · rfl

/-- a call that ends none -/
theorem spared_pages {s : TaskStruct} {op : Op} (hend : endedBy s op = none) (hne : op ≠ .idleReap) :
    s.reclaimed (cleanedBy s op) (reapedBy s op) = s.pages := by
  rw [reapedBy_of_end hend hne, cleanedBy_of_end hend hne]
  exact reclaimed_none s

theorem kept_pages {s s' : TaskStruct} {op : Op} (hpages : s'.pages = s.pages) (hend : endedBy s op = none)
    (hne : op ≠ .idleReap) : s'.pages = s.reclaimed (cleanedBy s op) (reapedBy s op) :=
  hpages.trans (spared_pages hend hne).symm

theorem taskTerminate_pages {s s' : TaskStruct} {taskId : Nat} {b hw : Bool} (hi : TaskInv s)
    (h : ckTaskTerminate s taskId hw = some (b, s')) :
    s'.pages = s.reclaimed (cleanedBy s (.taskTerminate taskId)) (reapedBy s (.taskTerminate taskId)) := by
  have hne : Op.taskTerminate taskId ≠ .idleReap := by simp
  unfold ckTaskTerminate at h
  split at h
  · cases hu : csGetTaskFromId s taskId with
    | none =>
      rw [hu] at h
      cases h
      have hend : endedBy s (.taskTerminate taskId) = none := hu
      exact (spared_pages hend hne).symm
    | some u =>
      rw [hu] at h
      obtain ⟨s₂, h₂, h⟩ := Option.bind_eq_some_iff.mp h
      cases h
      exact terminated_pages hi (csGetTaskFromId_some hu).1 hu hne h₂
  · cases h

theorem processTerminate_pages {s s' : TaskStruct} {processId : Nat} {b hw : Bool} (hi : TaskInv s)
    (h : ckProcessTerminate s processId hw = some (b, s')) :
    s'.pages = s.reclaimed (cleanedBy s (.processTerminate processId)) (reapedBy s (.processTerminate processId)) := by
  have hne : Op.processTerminate processId ≠ .idleReap := by simp
  unfold ckProcessTerminate at h
  split at h
  · cases hp : csGetProcessFromId s processId with
    | none =>
      rw [hp] at h
      cases h
      have hend : endedBy s (.processTerminate processId) = none := by
        rw [endedBy, hp]
        rfl
      exact (spared_pages hend hne).symm
    | some p =>
      rw [hp] at h
      obtain ⟨u, hu, h⟩ := Option.bind_eq_some_iff.mp h
      obtain ⟨s₂, h₂, h⟩ := Option.bind_eq_some_iff.mp h
      cases h
      have hend : endedBy s (.processTerminate processId) = some u := by
        rw [endedBy, hp]
        exact hu
      exact terminated_pages hi (hi.1.main p u hu).1 hend hne h₂
  · cases h

/-! ## every call -/

theorem taskCreate_pages (s : TaskStruct) (stack stacksize : Nat) (p : ProcPtr) (priority : TaskPriority) :
    ( ckTaskCreate_unsafe s stack stacksize p priority).2.pages = s.pages := by
  unfold ckTaskCreate_unsafe
  split <;> rfl

theorem resume_pages (s : TaskStruct) (t : TaskPtr) : (ckTaskResume_byptr s t).2.pages = s.pages := by
  unfold ckTaskResume_byptr
  split <;> rfl

theorem setQuantum_pages {s s' : TaskStruct} {n : Nat} {hw : Bool} (h : setQuantum s n hw = some s') :
    s'.pages = s.pages := by
  unfold setQuantum at h
  simp only [] at h
  split at h
  · obtain ⟨⟨b, s₁⟩, h₁, rfl⟩ := Option.map_eq_some_iff.mp h
    exact schedule_pages (s := { s with remainQuantum := n }) h₁
  · cases h
    rfl

theorem joinOn_pages {s s' : TaskStruct} {u : TaskPtr} {hw : Bool} (hi : TaskInv s) (h : joinOn s u hw = some s') :
    s'.pages = s.pages := by
  rw [joinOn_eq hi.2.2] at h
  obtain ⟨⟨b, s₁⟩, h₁, rfl⟩ := Option.map_eq_some_iff.mp h
  exact schedule_pages (s := joined s u) h₁

theorem taskJoin_pages {s s' : TaskStruct} {taskId : Nat} {hw : Bool} (hi : TaskInv s)
    (h : ckTaskJoin s taskId hw = some s') : s'.pages = s.pages := by
  unfold ckTaskJoin at h
  simp only [] at h
  split at h
  · split at h
    · split at h
      · exact joinOn_pages hi h
      · cases h
        rfl
    · cases h
      rfl
  · cases h

theorem processJoin_pages {s s' : TaskStruct} {procId : Nat} {hw : Bool} (hi : TaskInv s)
    (h : ckProcessJoin s procId hw = some s') : s'.pages = s.pages := by
  unfold ckProcessJoin at h
  simp only [] at h
  split at h
  · split at h
    · obtain ⟨u, _, h⟩ := Option.bind_eq_some_iff.mp h
      exact joinOn_pages hi h
    · cases h
      rfl
  · cases h

theorem idleReap_pages {s s' : TaskStruct} (h : idleReap s = some s') :
    s'.pages = s.reclaimed (cleanedBy s .idleReap) (reapedBy s .idleReap) := by
  obtain ⟨⟨t, s₁⟩, h₁, h⟩ := Option.bind_eq_some_iff.mp h
  have hpop : ∃ g, s₁ = { s with nodes := g } := by
    unfold popTask at h₁
    split at h₁ <;> cases h₁ <;> exact ⟨_, rfl⟩
  unfold cleanedBy reapedBy
  rw [h₁]
  obtain ⟨g, rfl⟩ := hpop
  cases t with
  | none =>
    cases h
    exact (reclaimed_none s).symm
  | some t =>
    have h : reap { s with nodes := g } t (s.tasks t).pProcess = some s' := h
    exact (reap_pages h).trans (reclaimed_congr rfl (fun p => ⟨rfl, rfl⟩) ⟨rfl, rfl⟩)

/-- **The process that a call cleans up, and the slot that becomes free**, are those of its events. -/
theorem exec_pages {finit : FpuContext} {hw : Bool} {s s' : TaskStruct} {op : Op} (hi : TaskInv s)
    (h : exec finit hw s op = some s') : s'.pages = s.reclaimed (cleanedBy s op) (reapedBy s op) ∨
      ∃ addr value, op = .write addr value ∧ s'.pages = s.pages.write addr value := by
  cases op with
  | write addr value =>
    cases h
    exact Or.inr ⟨addr, value, rfl, rfl⟩
  | taskTerminate taskId =>
    obtain ⟨⟨b, s₁⟩, h₁, rfl⟩ := Option.map_eq_some_iff.mp h
    exact Or.inl (taskTerminate_pages hi h₁)
  | processTerminate processId =>
    obtain ⟨⟨b, s₁⟩, h₁, rfl⟩ := Option.map_eq_some_iff.mp h
    exact Or.inl (processTerminate_pages hi h₁)
  | idleReap => exact Or.inl (idleReap_pages h)
  | taskCreate stack stacksize processId priority =>
    cases h
    refine Or.inl (kept_pages ?_ rfl nofun)
    unfold ckTaskCreate
    split
    · rfl
    · exact taskCreate_pages _ _ _ _ _
  | processCreate stack stacksize priority pageDirectory pageDirSize cr3 procData parentProcessId =>
    cases h
    refine Or.inl (kept_pages ?_ rfl nofun)
    unfold ckProcessCreate
    split
    · rfl
    · split
      · rfl
      · exact taskCreate_pages _ _ _ _ _
  | schedule =>
    obtain ⟨⟨b, s₁⟩, h₁, rfl⟩ := Option.map_eq_some_iff.mp h
    exact Or.inl (kept_pages (schedule_pages h₁) rfl nofun)
  | timerInt =>
    unfold exec ckTaskScheduleOnTimerInt at h
    exact Or.inl (kept_pages (setQuantum_pages h) rfl nofun)
  | taskJoin taskId => exact Or.inl (kept_pages (taskJoin_pages hi h) rfl nofun)
  | processJoin procId => exact Or.inl (kept_pages (processJoin_pages hi h) rfl nofun)
  | taskResume taskId =>
    refine Or.inl (kept_pages ?_ rfl nofun)
    obtain ⟨⟨b, s₁⟩, h₁, rfl⟩ := Option.map_eq_some_iff.mp h
    unfold ckTaskResume at h₁
    split at h₁
    · split at h₁
      · obtain rfl := (Prod.mk.inj (Option.some.inj h₁)).2
        exact resume_pages s _
      · cases h₁
        rfl
    · cases h₁
  | fpu f =>
    cases h
    refine Or.inl (kept_pages ?_ rfl nofun)
    obtain ⟨ctx, used, ts, fpu, last, e⟩ := fpuInstruction_eq finit f s
    rw [e]

/-! ## the memory of a process -/

/-- the page table of the entry `i` of a directory -/
def entryTable (mem : Nat → Nat) (pdir i : Nat) : Nat := ckDynMemPhysicalToLogical (entryAddr (mem (u32 (pdir + 4 * i))))

/-- no page table lies over the directory -/
def DirectoryApart (mem : Nat → Nat) (n pdir : Nat) : Prop := ∀ i < n, mem (u32 (pdir + 4 * i)) ≠ 0 →
  ∀ j < 1024, ∀ k < n, u32 (entryTable mem pdir i + 4 * j) ≠ u32 (pdir + 4 * k)

/-- The calls are for the directory and its tables, and for the pages that they refer to. -/
structure GivesBack (mem : Nat → Nat) (p : Process) (calls : List (Nat × Nat)) : Prop where
  only : ∀ c ∈ calls, DirReads mem kernelPageDirNum p.pageDirectory c ∨ c ∈ dirCalls p
  directory : p.pageDirSize ≠ 0 → (p.pageDirectory, p.pageDirSize) ∈ calls
  tables : DirectoryApart mem kernelPageDirNum p.pageDirectory → ∀ i < kernelPageDirNum,
    mem (u32 (p.pageDirectory + 4 * i)) ≠ 0 → (entryTable mem p.pageDirectory i, dynMemBuddyUnitSize) ∈ calls

theorem u32_step (a j : Nat) : u32 (u32 (a + 4) + 4 * j) = u32 (a + 4 * (j + 1)) := by
  rw [u32_add, Nat.add_assoc, Nat.mul_succ, Nat.add_comm 4]

theorem cleanupTable_frame (n : Nat) : ∀ (a : Nat) (g : Pages), a < 2^32 → ∀ x, (∀ j < n, u32 (a + 4 * j) ≠ x) →
    (cleanupTable n a g).mem x = g.mem x := by
  induction n with
  | zero => exact fun _ _ _ _ _ => rfl
  | succ n ih =>
    intro a g ha x hx
    have hfirst : x ≠ a := fun e => hx 0 (Nat.succ_pos n) ((u32_of_lt ha).trans e.symm)
    have hrest : ∀ j < n, u32 (u32 (a + 4) + 4 * j) ≠ x := fun j hj => by
      rw [u32_step]
      exact hx (j + 1) (Nat.succ_lt_succ hj)
    rw [cleanupTable, ih _ _ (u32_lt _) x hrest]
    split
    · exact Function.update_of_ne hfirst _ _
    · rfl

/-- **Every table of a directory** that no table lies over is given back. -/
theorem cleanupDirectory_tables (n : Nat) : ∀ (d : Nat) (g : Pages), d < 2^32 → 4 * n < 2^32 →
    DirectoryApart g.mem n d → ∃ cs, (cleanupDirectory n d g).freed = g.freed ++ cs ∧
      ∀ i < n, g.mem (u32 (d + 4 * i)) ≠ 0 → (entryTable g.mem d i, dynMemBuddyUnitSize) ∈ cs := by
  induction n with
  | zero =>
    intro d g _ _ _
    exact ⟨[], (List.append_nil _).symm, fun i hi => absurd hi (Nat.not_lt_zero i)⟩
  | succ n ih =>
    intro d g hd hn hap
    have hfirst : u32 (d + 4 * 0) = d := u32_of_lt hd
    -- the entries behind the first one are as they were
    have hrest : ∀ g₁ : Pages, (∀ i < n, g₁.mem (u32 (d + 4 * (i + 1))) = g.mem (u32 (d + 4 * (i + 1)))) →
        (∀ i < n, g₁.mem (u32 (u32 (d + 4) + 4 * i)) = g.mem (u32 (d + 4 * (i + 1)))) ∧
        (∀ i < n, entryTable g₁.mem (u32 (d + 4)) i = entryTable g.mem d (i + 1)) ∧
        DirectoryApart g₁.mem n (u32 (d + 4)) := by
      intro g₁ hg₁
      have hword : ∀ i < n, g₁.mem (u32 (u32 (d + 4) + 4 * i)) = g.mem (u32 (d + 4 * (i + 1))) := fun i hi => by
        rw [u32_step, hg₁ i hi]
      have htable : ∀ i < n, entryTable g₁.mem (u32 (d + 4)) i = entryTable g.mem d (i + 1) := fun i hi => by
        rw [entryTable, hword i hi, entryTable]
      refine ⟨hword, htable, fun i hi h0 j hj k hk => ?_⟩
      rw [hword i hi] at h0
      rw [htable i hi, u32_step]
      exact hap (i + 1) (Nat.succ_lt_succ hi) h0 j hj (k + 1) (Nat.succ_lt_succ hk)
    rw [cleanupDirectory]
    by_cases he : g.mem d ≠ 0
    · simp only [if_pos he]
      have htable₀ : ckDynMemPhysicalToLogical (entryAddr (g.mem d)) = entryTable g.mem d 0 := by
        rw [entryTable, hfirst]
      rw [htable₀]
      obtain ⟨_, cs, hcs, _⟩ := cleanupTable_calls 1024 (entryTable g.mem d 0) g (physicalToLogical_lt _)
      have hframe := cleanupTable_frame 1024 (entryTable g.mem d 0) g (physicalToLogical_lt _)
      have hsame : ∀ i < n, (((cleanupTable 1024 (entryTable g.mem d 0) g).free (entryTable g.mem d 0)
          dynMemBuddyUnitSize).write d 0).mem (u32 (d + 4 * (i + 1))) = g.mem (u32 (d + 4 * (i + 1))) := by
        intro i hi
        have hne : u32 (d + 4 * (i + 1)) ≠ d := by
          unfold u32
          omega
        rw [Pages.write_mem _ hne, Pages.free_mem]
        refine hframe _ fun j hj => ?_
        exact hap 0 (Nat.succ_pos n) (by rw [hfirst]; exact he) j hj (i + 1) (Nat.succ_lt_succ hi)
      obtain ⟨hword, htable, hap'⟩ := hrest _ hsame
      obtain ⟨cs', hcs', hmem⟩ := ih (u32 (d + 4)) _ (u32_lt _) (by omega) hap'
      refine ⟨cs ++ [(entryTable g.mem d 0, dynMemBuddyUnitSize)] ++ cs', ?_, fun i hi h0 => ?_⟩
      · rw [hcs', Pages.write_freed, Pages.free_freed, hcs, List.append_assoc, List.append_assoc, List.append_assoc]
      · cases i with
        | zero => exact List.mem_append_left _ (List.mem_append_right _ (List.mem_singleton_self _))
        | succ i =>
          have hi' := Nat.lt_of_succ_lt_succ hi
          rw [← htable i hi']
          rw [← hword i hi'] at h0
          exact List.mem_append_right _ (hmem i hi' h0)
    · simp only [if_neg he]
      obtain ⟨hword, htable, hap'⟩ := hrest g fun _ _ => rfl
      obtain ⟨cs, hcs, hmem⟩ := ih (u32 (d + 4)) g (u32_lt _) (by omega) hap'
      refine ⟨cs, hcs, fun i hi h0 => ?_⟩
      cases i with
      | zero =>
        rw [hfirst] at h0
        exact absurd h0 he
      | succ i =>
        have hi' := Nat.lt_of_succ_lt_succ hi
        rw [← htable i hi']
        rw [← hword i hi'] at h0
        exact hmem i hi' h0

/-- **One clean-up** gives back the directory, its tables and what they refer to. -/
theorem cleanupPages_gives (g : Pages) {p : Process} (h0 : p.pageDirectory ≠ 0) (hlt : p.pageDirectory < 2^32) :
    ∃ calls, (cleanupPages g p).freed = g.freed ++ calls ∧ GivesBack g.mem p calls := by
  obtain ⟨cs, hcs, hreads⟩ := cleanupPages_calls g h0 hlt
  refine ⟨cs ++ dirCalls p, hcs, ⟨fun c hc => ?_, fun hsize => ?_, fun hap i hi hne => ?_⟩⟩
  · exact (List.mem_append.mp hc).imp_left (hreads c)
  · refine List.mem_append_right _ ?_
    rw [dirCalls, if_pos hsize]
    exact List.mem_singleton_self _
  · obtain ⟨cs', hcs', hmem⟩ := cleanupDirectory_tables kernelPageDirNum p.pageDirectory g hlt (by decide) hap
    have hall : (cleanupPages g p).freed = g.freed ++ (cs' ++ dirCalls p) := by
      unfold cleanupPages dirCalls
      rw [if_pos h0]
      simp only []
      generalize cleanupDirectory kernelPageDirNum p.pageDirectory g = g₁ at hcs' ⊢
      split
      · rw [← List.append_assoc]
        exact congrArg (· ++ _) hcs'
      · rw [List.append_nil]
        exact hcs'
    rw [List.append_cancel_left (hcs.symm.trans hall)]
    exact List.mem_append_left _ (hmem i hi hne)

/-! ## runs -/

/-- What a call does to the memory of the processes: `csCleanupProcess` runs once for the process that the events of the
call say, whose memory is given back, and for no other. -/
structure Reclaims (s : TaskStruct) (op : Op) (s' : TaskStruct) : Prop where
  cleaned : s'.pages.cleaned = s.pages.cleaned ++ (cleanedBy s op).toList
  kept : cleanedBy s op = none → s'.pages.freed = s.pages.freed ++ stackCalls s (reapedBy s op)
  given : ∀ p, cleanedBy s op = some p → (s.processes p).pageDirectory ≠ 0 → (s.processes p).pageDirectory < 2^32 →
    ∃ calls, s'.pages.freed = s.pages.freed ++ (calls ++ stackCalls s (reapedBy s op)) ∧
      GivesBack s.pages.mem (s.processes p) calls

theorem cleanupTable_cleaned (n : Nat) : ∀ (a : Nat) (g : Pages), (cleanupTable n a g).cleaned = g.cleaned := by
  induction n with
  | zero => exact fun _ _ => rfl
  | succ n ih =>
    intro a g
    rw [cleanupTable, ih]
    split <;> rfl

theorem cleanupDirectory_cleaned (n : Nat) : ∀ (d : Nat) (g : Pages), (cleanupDirectory n d g).cleaned = g.cleaned := by
  induction n with
  | zero => exact fun _ _ => rfl
  | succ n ih =>
    intro d g
    rw [cleanupDirectory, ih]
    by_cases he : g.mem d ≠ 0
    · simp only [if_pos he]
      rw [Pages.write_cleaned, Pages.free_cleaned, cleanupTable_cleaned]
    · simp only [if_neg he]

theorem cleanupPages_cleaned (g : Pages) (p : Process) : (cleanupPages g p).cleaned = g.cleaned := by
  unfold cleanupPages
  simp only []
  split_ifs
  · rw [Pages.free_cleaned, cleanupDirectory_cleaned]
  · rw [cleanupDirectory_cleaned]
  · rfl

theorem cleanedUp_cleaned (s : TaskStruct) (r : Option ProcPtr) :
    (cleanedUp s r).cleaned = s.pages.cleaned ++ r.toList := by
  cases r with
  | none => exact (List.append_nil _).symm
  | some p => exact congrArg (· ++ [p]) (cleanupPages_cleaned s.pages (s.processes p))

theorem exec_reclaims {finit : FpuContext} {hw : Bool} {s s' : TaskStruct} {op : Op} (hi : TaskInv s)
    (h : exec finit hw s op = some s') : Reclaims s op s' := by
  rcases exec_pages hi h with hpages | ⟨addr, value, rfl, hpages⟩
  · refine ⟨?_, fun hnone => ?_, fun p hp h0 hlt => ?_⟩
    · rw [hpages]
      exact cleanedUp_cleaned s (cleanedBy s op)
    · rw [hpages, hnone]
      rfl
    · obtain ⟨calls, hfreed, hgives⟩ := cleanupPages_gives s.pages h0 hlt
      refine ⟨calls, ?_, hgives⟩
      rw [hpages, hp, ← List.append_assoc, ← hfreed]
      rfl
  · -- a word that is written frees nothing
    refine ⟨?_, fun _ => ?_, fun p hp => nomatch hp⟩
    · rw [hpages]
      exact (List.append_nil _).symm
    · rw [hpages]
      exact (List.append_nil _).symm

/-- the processes cleaned up are those that `csCleanupProcess` has run for -/
theorem HistoryRun.cleaned {finit : FpuContext} {ok : TaskStruct → Op → Prop} (hok : ∀ s op, ok s op → op.Proper s)
    {s : TaskStruct} {h : History} (hr : HistoryRun finit ok s h) : h.cleaned = s.pages.cleaned := by
  induction hr with
  | boot fpu mem => rfl
  | @call s h op hw s' hr ho e ih =>
    rw [(exec_reclaims (hr.inv hok) e).cleaned, ← ih]
    rfl

end Clubcos
