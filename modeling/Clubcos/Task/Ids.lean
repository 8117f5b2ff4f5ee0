import Clubcos.Task.History

/-!
# Ids of tasks and processes

An id is a handle: the number of the slot below a counter.  Task ids count up by `2^12`, process ids by
`2^10`, modulo `2^32`.

* `IdInv`         the slots against the history of the run;
* `ids_resolve`   **an id leads to its task or process until that is terminated, and to none after that**,
                  for as long as the counters have not come round.
-/

set_option linter.unusedVariables false

namespace Clubcos
open Word Handle

/-- the ids that are there from the beginning, and those of the run -/
def History.allTasks (h : History) : List (Nat × TaskPtr) :=
  (kernelTaskId, kernelTask) :: (idleTaskId, idleTask) :: h.tasks

def History.allProcesses (h : History) : List (Nat × ProcPtr) := (kernelProcessId, kernelProcess) :: h.processes

structure IdInv (s : TaskStruct) (h : History) : Prop where
  taskMask : s.taskIdMask = u32 (2^12 * (h.tasks.length + 1))
  processMask : s.processIdMask = u32 (2^10 * (h.processes.length + 1))
  taskNumbers : Numbered 12 h.tasks
  processNumbers : Numbered 10 h.processes
  taskSlots : ∀ e ∈ h.tasks, 2 ≤ e.2.val
  processSlots : ∀ e ∈ h.processes, e.2 ≠ kernelProcess
  tasks : Tracks (fun t => (s.tasks t).Live) (fun t => (s.tasks t).id) h.allTasks h.endedTasks
  processes : Tracks (fun p => (s.processes p).Valid) (fun p => (s.processes p).id) h.allProcesses h.endedProcesses
  directory : ∀ q, (s.processes q).pMainThread ≠ none → (s.processes q).pageDirectory ≠ 0

/-! ## the ids of a history -/

section
variable {made : List (Nat × TaskPtr)} (hnum : Numbered 12 made) (hslot : ∀ e ∈ made, 2 ≤ e.2.val)
include hnum

theorem taskId_mod {e : Nat × TaskPtr} (he : e ∈ made) : e.1 % 2^12 = e.2.val :=
  hnum.mod (by decide) (by decide) he

include hslot

/-- no task has the id of the kernel or of the idle task -/
theorem taskId_ne {e : Nat × TaskPtr} (he : e ∈ made) : e.1 ≠ kernelTaskId ∧ e.1 ≠ idleTaskId := by
  have hmod := taskId_mod hnum he
  have hle := hslot e he
  constructor <;> intro h <;> rw [h] at hmod <;> simp only [kernelTaskId, idleTaskId] at hmod <;> omega

theorem taskIds_nodup (hlen : made.length ≤ 2^20) :
    (((kernelTaskId, kernelTask) :: (idleTaskId, idleTask) :: made).map Prod.fst).Nodup := by
  refine List.nodup_cons.mpr ⟨fun h => ?_, List.nodup_cons.mpr ⟨fun h => ?_, hnum.nodup (by decide) (by decide) hlen⟩⟩
  · rcases List.mem_cons.mp h with h | h
    · cases h
    · obtain ⟨e, he, h⟩ := List.mem_map.mp h
      exact (taskId_ne hnum hslot he).1 h
  · obtain ⟨e, he, h⟩ := List.mem_map.mp h
    exact (taskId_ne hnum hslot he).2 h

end

section
variable {made : List (Nat × ProcPtr)} (hnum : Numbered 10 made) (hslot : ∀ e ∈ made, e.2 ≠ kernelProcess)
include hnum hslot

theorem processId_ne {e : Nat × ProcPtr} (he : e ∈ made) : e.1 ≠ kernelProcessId := by
  intro h
  have hmod := hnum.mod (by decide) (by decide) he
  rw [h] at hmod
  exact hslot e he (Fin.ext hmod.symm)

theorem processIds_nodup (hlen : made.length ≤ 2^22) :
    (((kernelProcessId, kernelProcess) :: made).map Prod.fst).Nodup := by
  refine List.nodup_cons.mpr ⟨fun h => ?_, hnum.nodup (by decide) (by decide) hlen⟩
  obtain ⟨e, he, h⟩ := List.mem_map.mp h
  exact processId_ne hnum hslot he h

end

/-! ## a call -/

theorem u32_unit {b n unit : Nat} (h : unit = 2^b) : u32 (u32 (2^b * (n + 1)) + unit) = u32 (2^b * (n + 1 + 1)) := by
  rw [h, Nat.mul_succ (2^b) (n + 1)]
  exact Nat.mod_add_mod _ _ _

/-- the history after a call that creates no task, or one -/
theorem IdInv.newTask {s s' : TaskStruct} {h : History} {op : Op} (hi : IdInv s h) (he : Effect s op s') :
    Numbered 12 (h.step s op).tasks ∧ (∀ e ∈ (h.step s op).tasks, 2 ≤ e.2.val) ∧
      s'.taskIdMask = u32 (2^12 * ((h.step s op).tasks.length + 1)) := by
  have htasks : (h.step s op).tasks = h.tasks ++ (startedBy s op).toList := rfl
  rw [htasks, he.taskMask]
  cases hs : startedBy s op with
  | none =>
    rw [if_pos rfl, Option.toList_none, List.append_nil]
    exact ⟨hi.taskNumbers, hi.taskSlots, hi.taskMask⟩
  | some e =>
    obtain ⟨i, t⟩ := e
    obtain ⟨_, hle, hid, _⟩ := he.started i t hs
    rw [if_neg nofun, Option.toList_some, List.length_append, List.length_singleton, hi.taskMask,
      u32_unit (by decide : taskIdMaskUnit = 2^12)]
    rw [hi.taskMask] at hid
    refine ⟨hid ▸ hi.taskNumbers.snoc t, fun e he => ?_, rfl⟩
    rcases List.mem_append.mp he with he | he
    · exact hi.taskSlots e he
    · exact List.mem_singleton.mp he ▸ hle

/-- the counter of the process ids, and the id of the process that a call creates -/
theorem Effect.processCount {s s' : TaskStruct} {h : History} {op : Op} (he : Effect s op s')
    (hm : s.processIdMask = u32 (2^10 * (h.processes.length + 1))) :
    s'.processIdMask = u32 (2^10 * ((h.step s op).processes.length + 1)) ∧
      ∀ j q, foundedBy s op = some (j, q) → j = handle 10 (h.processes.length + 1) q.val := by
  have hprocs : (h.step s op).processes = h.processes ++ (foundedBy s op).toList := rfl
  rw [hprocs, he.processMask]
  cases hs : foundedBy s op with
  | none =>
    rw [if_pos rfl, Option.toList_none, List.append_nil]
    exact ⟨hm, nofun⟩
  | some e =>
    obtain ⟨j, q⟩ := e
    obtain ⟨_, hid, _⟩ := he.founded j q hs
    rw [if_neg nofun, Option.toList_some, List.length_append, List.length_singleton, hm,
      u32_unit (by decide : processIdMaskUnit = 2^10)]
    refine ⟨rfl, fun j' q' h => ?_⟩
    cases h
    rw [hid, hm]
    rfl

theorem IdInv.newProcess {s s' : TaskStruct} {h : History} {op : Op} (hi : IdInv s h) (ht : TaskInv s)
    (he : Effect s op s') :
    Numbered 10 (h.step s op).processes ∧ (∀ e ∈ (h.step s op).processes, e.2 ≠ kernelProcess) ∧
      s'.processIdMask = u32 (2^10 * ((h.step s op).processes.length + 1)) := by
  obtain ⟨hmask, hid⟩ := he.processCount hi.processMask
  have hprocs : (h.step s op).processes = h.processes ++ (foundedBy s op).toList := rfl
  rw [hprocs] at hmask ⊢
  cases hs : foundedBy s op with
  | none =>
    rw [hs] at hmask
    rw [Option.toList_none, List.append_nil] at hmask ⊢
    exact ⟨hi.processNumbers, hi.processSlots, hmask⟩
  | some e =>
    obtain ⟨j, q⟩ := e
    obtain ⟨hdir, _⟩ := he.founded j q hs
    rw [hs] at hmask
    rw [Option.toList_some] at hmask ⊢
    refine ⟨hid j q hs ▸ hi.processNumbers.snoc q, fun e he => ?_, hmask⟩
    rcases List.mem_append.mp he with he | he
    · exact hi.processSlots e he
    · exact List.mem_singleton.mp he ▸ fun e => ht.1.dir0 (e ▸ hdir)

/-- the last element of a list without duplicates is new -/
theorem notMem_of_snoc {A : Type} {xs : List A} {x : A} (h : (xs ++ [x]).Nodup) : x ∉ xs := fun hx =>
  (List.nodup_append.mp h).2.2 x hx x List.mem_cons_self rfl

theorem IdInv.step {s s' : TaskStruct} {h : History} {op : Op} (hi : IdInv s h) (ht : TaskInv s)
    (he : Effect s op s') (hd : op.HasDirectory) (hT : (h.step s op).tasks.length ≤ 2^20)
    (hP : (h.step s op).processes.length ≤ 2^22) : IdInv s' (h.step s op) := by
  obtain ⟨hnumT, hslotT, hmaskT⟩ := hi.newTask he
  obtain ⟨hnumP, hslotP, hmaskP⟩ := hi.newProcess ht he
  have hnodupT := taskIds_nodup hnumT hslotT hT
  have hnodupP := processIds_nodup hnumP hslotP hP
  have hallT : (h.step s op).allTasks = h.allTasks ++ (startedBy s op).toList := rfl
  have hallP : (h.step s op).allProcesses = h.allProcesses ++ (foundedBy s op).toList := rfl
  have hnoT : (h.allTasks.map Prod.fst ++ (startedBy s op).toList.map Prod.fst).Nodup := List.map_append ▸ hnodupT
  have hnoP : (h.allProcesses.map Prod.fst ++ (foundedBy s op).toList.map Prod.fst).Nodup := List.map_append ▸ hnodupP
  have hdir : ∀ q, (s'.processes q).pMainThread ≠ none → (s'.processes q).pageDirectory ≠ 0 := by
    intro q hq
    by_cases hf : ∃ j, foundedBy s op = some (j, q)
    · obtain ⟨j, hf⟩ := hf
      exact he.directory hd j q hf
    · obtain ⟨h1, _, h3⟩ := he.process q fun j hj => hf ⟨j, hj⟩
      rw [h3] at hq
      rw [h1]
      by_cases hc : closedBy s op = some q
      · rw [if_pos hc] at hq
        exact absurd rfl hq
      · rw [if_neg hc] at hq
        exact hi.directory q hq
  exact {
    taskMask := hmaskT
    processMask := hmaskP
    taskNumbers := hnumT
    processNumbers := hnumP
    taskSlots := hslotT
    processSlots := hslotP
    tasks := by
      rw [hallT]
      refine hi.tasks.step (List.nodup_append.mp hnoT).1 he.live (fun t h => he.taskId t h) (fun e hs => ?_)
        fun t h => (he.ended t h).1
      obtain ⟨hsel, _, _, hid⟩ := he.started e.1 e.2 hs
      rw [hs] at hnoT
      exact ⟨hid, fun h => h.1 hsel, notMem_of_snoc hnoT⟩
    processes := by
      rw [hallP]
      refine hi.processes.step (List.nodup_append.mp hnoP).1 (fun q => ?_) (fun q h => (he.process q h).2.1)
        (fun e hs => ?_) fun q h => ?_
      · by_cases hf : ∃ j, foundedBy s op = some (j, q)
        · obtain ⟨j, hf⟩ := hf
          obtain ⟨_, _, _, i, t, _, hm⟩ := he.founded j q hf
          exact iff_of_true ⟨he.directory hd j q hf, by rw [hm]; nofun⟩ (Or.inr ⟨j, hf⟩)
        · obtain ⟨h1, _, h3⟩ := he.process q fun j hj => hf ⟨j, hj⟩
          unfold Process.Valid
          rw [h1, h3]
          by_cases hc : closedBy s op = some q
          · rw [if_pos hc]
            exact iff_of_false (fun h => h.2 rfl) fun h => h.elim (fun h => h.2 hc) hf
          · rw [if_neg hc]
            exact ⟨fun h => Or.inl ⟨h, hc⟩, fun h => h.elim (fun h => h.1) fun h => absurd h hf⟩
      · obtain ⟨h0, _, hid, _⟩ := he.founded e.1 e.2 hs
        rw [hs] at hnoP
        exact ⟨hid, fun h => h.1 h0, notMem_of_snoc hnoP⟩
      · obtain ⟨t, _, hm⟩ := Option.bind_eq_some_iff.mp h
        have hmain : (s.processes q).pMainThread ≠ none := by
          rw [(mainOf_some.mp hm).2]
          nofun
        exact ⟨hi.directory q hmain, hmain⟩
    directory := hdir
  }

section

variable (fpu : FpuContext) (mem : Nat → Nat)

theorem boot_taskIds : Tracks (fun t => ((ckTaskStructInitialize fpu mem).tasks t).Live)
    (fun t => ((ckTaskStructInitialize fpu mem).tasks t).id) History.empty.allTasks History.empty.endedTasks := by
  obtain ⟨k, i, htasks, _⟩ := boot_tasks fpu mem
  have hslot := (boot_inv fpu mem).1.toSlotInv
  refine ⟨fun t ht => ?_, fun e he _ => ?_, nofun⟩
  · by_cases e1 : t = idleTask
    · rw [e1]
      exact ⟨List.mem_cons_of_mem _ List.mem_cons_self, nofun⟩
    · by_cases e0 : t = kernelTask
      · rw [e0]
        exact ⟨List.mem_cons_self, nofun⟩
      · rw [htasks] at ht
        simp only [if_neg e1, if_neg e0] at ht
        exact absurd rfl ht.1
  · rcases List.mem_cons.mp he with rfl | he
    · exact ⟨hslot.kernel, rfl⟩
    · rcases List.mem_cons.mp he with rfl | he
      · exact ⟨hslot.idle.1, rfl⟩
      · cases he

/-- only the kernel's process is there -/
theorem boot_processes {q : ProcPtr} (hq : q ≠ kernelProcess) :
    ((ckTaskStructInitialize fpu mem).processes q).pMainThread = none := by
  rw [show (ckTaskStructInitialize fpu mem).processes q = _ from Function.update_of_ne hq _ _]
  rfl

theorem boot_processIds : Tracks (fun p => ((ckTaskStructInitialize fpu mem).processes p).Valid)
    (fun p => ((ckTaskStructInitialize fpu mem).processes p).id) History.empty.allProcesses
    History.empty.endedProcesses := by
  have hslot := (boot_inv fpu mem).1.toSlotInv
  refine ⟨fun q hq => ?_, fun e he _ => ?_, nofun⟩
  · by_cases e : q = kernelProcess
    · rw [e]
      exact ⟨List.mem_cons_self, nofun⟩
    · exact absurd (boot_processes fpu mem e) hq.2
  · rcases List.mem_cons.mp he with rfl | he
    · exact ⟨⟨hslot.dir0, by rw [hslot.main0]; nofun⟩, rfl⟩
    · cases he

theorem boot_ids : IdInv (ckTaskStructInitialize fpu mem) .empty where
  taskMask := rfl
  processMask := rfl
  taskNumbers := nofun
  processNumbers := nofun
  taskSlots := nofun
  processSlots := nofun
  tasks := boot_taskIds fpu mem
  processes := boot_processIds fpu mem
  directory q hq := by
    by_cases e : q = kernelProcess
    · rw [e]
      exact (boot_inv fpu mem).1.toSlotInv.dir0
    · exact absurd (boot_processes fpu mem e) hq

end

/-! ## looking up an id -/

theorem csGetTaskFromId_eq {s : TaskStruct} {id : Nat} {t : TaskPtr} (hid : id ≠ taskInvalidId)
    (ht : id &&& taskIdIdxMask = t.val) {P : Prop} [Decidable P]
    (h : (s.tasks t).Live ∧ (s.tasks t).id = id ↔ ¬ P) : csGetTaskFromId s id = if P then none else some t := by
  unfold csGetTaskFromId
  have hptr : (⟨id &&& taskIdIdxMask, Nat.and_lt_two_pow id (by decide : taskIdIdxMask < 2^11)⟩ : TaskPtr) = t :=
    Fin.ext ht
  simp only [if_neg hid, hptr]
  by_cases hP : P
  · rw [if_pos hP, if_neg fun hc => absurd hP (h.mp ⟨⟨hc.1, hc.2.2⟩, hc.2.1⟩)]
  · obtain ⟨hl, hi⟩ := h.mpr hP
    rw [if_neg hP, if_pos ⟨hl.1, hi, hl.2⟩]

theorem csGetProcessFromId_eq {s : TaskStruct} {id : Nat} {q : ProcPtr} (hid : id ≠ processInvalidId)
    (hq : id &&& processIdIdxMask = q.val) {P : Prop} [Decidable P]
    (h : (s.processes q).Valid ∧ (s.processes q).id = id ↔ ¬ P) :
    csGetProcessFromId s id = if P then none else some q := by
  unfold csGetProcessFromId
  have hptr : (⟨id &&& processIdIdxMask, Nat.and_lt_two_pow id (by decide : processIdIdxMask < 2^9)⟩ : ProcPtr) = q :=
    Fin.ext hq
  simp only [if_neg hid, hptr]
  by_cases hP : P
  · rw [if_pos hP, if_neg fun hc => absurd hP (h.mp ⟨⟨hc.1, hc.2.2⟩, hc.2.1⟩)]
  · obtain ⟨hv, hi⟩ := h.mpr hP
    rw [if_neg hP, if_pos ⟨hv.1, hi, hv.2⟩]

/-! ## runs -/

/-- the calls that are made: a creation finds a free task slot, and a process has a page directory -/
def Op.Counted (s : TaskStruct) (op : Op) : Prop := op.Proper s ∧ op.HasDirectory ∧ op.FreeSlot s

theorem HistoryRun.ids {finit : FpuContext} {s : TaskStruct} {h : History}
    (hr : HistoryRun finit Op.Counted s h) : h.tasks.length ≤ 2^20 → h.processes.length ≤ 2^22 → IdInv s h := by
  induction hr with
  | boot fpu mem => exact fun _ _ => boot_ids fpu mem
  | @call s h op hw s' hr ho e ih =>
    intro hT hP
    have hlenT : h.tasks.length ≤ (h.step s op).tasks.length := (List.prefix_append _ _).length_le
    have hlenP : h.processes.length ≤ (h.step s op).processes.length := (List.prefix_append _ _).length_le
    have hi := hr.inv fun _ _ ho => ho.1
    exact (ih (hlenT.trans hT) (hlenP.trans hP)).step hi (exec_effect hi ho.1 e) ho.2.1 hT hP

/-- **Ids never resolve to the wrong object**: the ids of a run are different from each other, from the invalid
id and from those of the kernel and the idle task, and an id leads to what was created with it until that is
terminated, and to nothing ever after. -/
theorem ids_resolve {finit : FpuContext} {s : TaskStruct} {h : History} (hr : HistoryRun finit Op.Counted s h)
    (hT : h.tasks.length ≤ 2^20) (hP : h.processes.length ≤ 2^22) :
    (h.tasks.map Prod.fst).Nodup ∧ (h.processes.map Prod.fst).Nodup ∧
    (∀ e ∈ h.tasks, (e.1 ≠ taskInvalidId ∧ e.1 ≠ kernelTaskId ∧ e.1 ≠ idleTaskId) ∧
      csGetTaskFromId s e.1 = if e.1 ∈ h.endedTasks then none else some e.2) ∧
    ∀ e ∈ h.processes, (e.1 ≠ processInvalidId ∧ e.1 ≠ kernelProcessId) ∧
      csGetProcessFromId s e.1 = if e.1 ∈ h.endedProcesses then none else some e.2 := by
  have hi := hr.ids hT hP
  refine ⟨hi.taskNumbers.nodup (by decide) (by decide) hT, hi.processNumbers.nodup (by decide) (by decide) hP,
    fun e he => ?_, fun e he => ?_⟩
  · obtain ⟨k, hk⟩ := List.getElem?_of_mem he
    have hnum := hi.taskNumbers k e hk
    have hinv : e.1 ≠ taskInvalidId := hnum ▸ handle_ne_ones (by decide) (by decide : 11 < 12) e.2.isLt
    have hand : e.1 &&& taskIdIdxMask = e.2.val := hnum ▸ handle_and (by decide) (by decide : 11 ≤ 12) e.2.isLt
    exact ⟨⟨hinv, taskId_ne hi.taskNumbers hi.taskSlots he⟩, csGetTaskFromId_eq hinv hand
      (hi.tasks.resolves (List.mem_cons_of_mem _ (List.mem_cons_of_mem _ he)))⟩
  · obtain ⟨k, hk⟩ := List.getElem?_of_mem he
    have hnum := hi.processNumbers k e hk
    have hinv : e.1 ≠ processInvalidId := hnum ▸ handle_ne_ones (by decide) (by decide : 9 < 10) e.2.isLt
    have hand : e.1 &&& processIdIdxMask = e.2.val := hnum ▸ handle_and (by decide) (by decide : 9 ≤ 10) e.2.isLt
    exact ⟨⟨hinv, processId_ne hi.processNumbers hi.processSlots he⟩, csGetProcessFromId_eq hinv hand
      (hi.processes.resolves (List.mem_cons_of_mem _ he))⟩

instance (s : TaskStruct) (op : Op) : Decidable (op.FreeSlot s) :=
  match op with
  | .taskCreate .. => inferInstanceAs (Decidable (freeTask s ≠ none))
  | .processCreate .. | .schedule | .timerInt | .taskJoin _ | .processJoin _ | .taskTerminate _ | .processTerminate _
  | .taskResume _ | .idleReap | .fpu _ | .write .. => instDecidableTrue

instance (s : TaskStruct) (op : Op) : Decidable (op.Counted s) := inferInstanceAs (Decidable (_ ∧ _ ∧ _))

/-- a process is terminated, and a task is created in the slot of its main thread -/
def slotReused : List Op := [.processCreate 0 0 .normal 0x500000 0 0 ⟨0⟩ 0, .processTerminate 1025,
  .taskCreate 0 0 0 .normal]

theorem slotReused_some : (historyAll 0 Op.Counted slotReused bootState .empty).isSome := by decide +kernel

def slotReusedState : TaskStruct × History := (historyAll 0 Op.Counted slotReused bootState .empty).get slotReused_some

theorem ids_resolve_slotReused : csGetTaskFromId slotReusedState.1 4098 = none ∧
    csGetTaskFromId slotReusedState.1 8194 = some 2 ∧ csGetProcessFromId slotReusedState.1 1025 = none := by
  have hr : HistoryRun 0 Op.Counted slotReusedState.1 slotReusedState.2 :=
    historyAll_run (.boot 0 fun _ => 0) (Option.some_get slotReused_some).symm
  have htasks : slotReusedState.2.tasks = [(4098, 2), (8194, 2)] ∧ slotReusedState.2.endedTasks = [4098] := by
    decide +kernel
  have hprocs : slotReusedState.2.processes = [(1025, 1)] ∧ slotReusedState.2.endedProcesses = [1025] := by
    decide +kernel
  obtain ⟨_, _, h1, h2⟩ := ids_resolve hr (by rw [htasks.1]; decide) (by rw [hprocs.1]; decide)
  rw [htasks.1, htasks.2] at h1
  rw [hprocs.1, hprocs.2] at h2
  exact ⟨(h1 (4098, 2) (by decide)).2, (h1 (8194, 2) (by decide)).2, (h2 (1025, 1) (by decide)).2⟩

end Clubcos
