import Clubcos.Task.Ids

/-!
# Creation when the task table is full

The search of `ckTaskCreate_unsafe` leaves its result at the last slot, so a full table looks to its callers like a task
that was created.

* `Stamped`             what the counters and the ids look like in every reachable state (`Reach.stamped`);
* `CreatesTask`         what `ckTaskCreate` is to do, `CreatesProcess` the same of `ckProcessCreate`;
* `ckTaskCreate_full`   what `ckTaskCreate` does with a full table, `ckProcessCreate_full` the same of `ckProcessCreate`;
* `creates_iff`         **the calls do what they are to do exactly if they do not meet a full table**;
* `crowded_fails`       the table is full after 2046 calls.
-/

set_option linter.unusedVariables false
set_option linter.unusedSectionVars false

namespace Clubcos
open Word Handle

/-- no index from 2 on has the selector 0 -/
def TaskStruct.Full (s : TaskStruct) : Prop := ∀ t : TaskPtr, 2 ≤ t.val → (s.tasks t).selector ≠ 0

theorem full_iff {s : TaskStruct} : s.Full ↔ freeTask s = none := by
  unfold TaskStruct.Full freeTask
  rw [firstSlot_none]
  refine forall_congr' fun t => ⟨fun h h2 _ => decide_eq_false (h h2), fun h h2 => of_decide_eq_false (h h2 ?_)⟩
  have hlt := t.isLt
  omega

/-! ## the ids of the slots -/

structure Stamped (s : TaskStruct) : Prop where
  taskMask : ∃ k, s.taskIdMask = u32 (2^12 * k)
  processMask : ∃ k, s.processIdMask = u32 (2^10 * k)
  ids : ∀ t, (s.tasks t).id ≠ taskInvalidId

theorem taskHandle_ne {k : Nat} (t : TaskPtr) : handle 12 k t.val ≠ taskInvalidId :=
  handle_ne_ones (c := 11) (by decide) (by decide) t.isLt

theorem processHandle_ne {k : Nat} (q : ProcPtr) : handle 10 k q.val ≠ processInvalidId :=
  handle_ne_ones (c := 9) (by decide) (by decide) q.isLt

theorem taskHandle_slot {k : Nat} (t : TaskPtr) : handle 12 k t.val &&& taskIdIdxMask = t.val :=
  handle_and (c := 11) (by decide) (by decide) t.isLt

theorem boot_stamped (fpu : FpuContext) (mem : Nat → Nat) : Stamped (ckTaskStructInitialize fpu mem) where
  taskMask := ⟨1, rfl⟩
  processMask := ⟨1, rfl⟩
  ids t := by
    have hids := (boot_slots fpu mem).ids
    by_cases hidle : t = idleTask
    · rw [hidle, hids.2.1]
      decide
    · by_cases hkernel : t = kernelTask
      · rw [hkernel, hids.1]
        decide
      · obtain ⟨k, i, htasks, -⟩ := boot_tasks fpu mem
        rw [htasks]
        show (if t = idleTask then i else if t = kernelTask then k else _).id ≠ _
        rw [if_neg hidle, if_neg hkernel]
        exact nofun

/-- a counter that is stepped, or not -/
theorem mask_next {m unit b : Nat} (hm : ∃ k, m = u32 (2^b * k)) (hu : unit = 2^b) (p : Prop) [Decidable p] :
    ∃ k, (if p then m else u32 (m + unit)) = u32 (2^b * k) := by
  by_cases hp : p
  · rw [if_pos hp]
    exact hm
  · obtain ⟨k, rfl⟩ := hm
    rw [if_neg hp, hu]
    exact ⟨k + 1, by rw [u32, u32, u32, Nat.mod_add_mod, Nat.mul_succ]⟩

theorem Stamped.step {s s' : TaskStruct} {op : Op} (hs : Stamped s) (he : Effect s op s') : Stamped s' where
  taskMask := he.taskMask ▸ mask_next hs.taskMask (by decide) _
  processMask := he.processMask ▸ mask_next hs.processMask (by decide) _
  ids t := by
    by_cases hnew : ∃ i, startedBy s op = some (i, t)
    · obtain ⟨i, hi⟩ := hnew
      obtain ⟨-, -, hid, hset⟩ := he.started i t hi
      obtain ⟨k, hk⟩ := hs.taskMask
      rw [hset, hid, hk]
      exact taskHandle_ne t
    · rw [he.taskId t fun i hi => hnew ⟨i, hi⟩]
      exact hs.ids t

theorem Reach.stamped {finit : FpuContext} {s : TaskStruct} (h : Reach finit Op.Proper s) : Stamped s := by
  induction h with
  | boot fpu mem => exact boot_stamped fpu mem
  | call hr ho e ih => exact ih.step (exec_effect (hr.inv fun _ _ h => h) ho e)

/-! ## what the calls are to do -/

/-- With a full table, or for a process that is not there, `ckTaskCreate` returns `TASK_INVALID_ID` and changes nothing;
else it returns the id of a task that was not live before. -/
structure CreatesTask (s : TaskStruct) (stack stacksize processId : Nat) (priority : TaskPriority) : Prop where
  full : s.Full → ckTaskCreate s stack stacksize processId priority = (taskInvalidId, s)
  unknown : csGetProcessFromId s processId = none →
    ckTaskCreate s stack stacksize processId priority = (taskInvalidId, s)
  fresh : ¬ s.Full → csGetProcessFromId s processId ≠ none → ∃ id s' t,
    ckTaskCreate s stack stacksize processId priority = (id, s') ∧ csGetTaskFromId s id = none ∧
      (s.tasks t).selector = 0 ∧ csGetTaskFromId s' id = some t

/-- With a full table, or without a slot for the process or a parent, `ckProcessCreate` returns `PROCESS_INVALID_ID` and
no process is there; else the main thread of the new process is a task that was not live before. -/
structure CreatesProcess (s : TaskStruct) (stack stacksize : Nat) (priority : TaskPriority)
    (pageDirectory pageDirSize cr3 : Nat) (procData : ProcessData) (parentProcessId : Nat) : Prop where
  full : s.Full → ∃ s', ckProcessCreate s stack stacksize priority pageDirectory pageDirSize cr3 procData
    parentProcessId = (processInvalidId, s') ∧ s'.processes = s.processes ∧ s'.children = s.children
  unknown : csGetProcessFromId s parentProcessId = none ∨ freeProcess s = none →
    ckProcessCreate s stack stacksize priority pageDirectory pageDirSize cr3 procData parentProcessId =
      (processInvalidId, s)
  fresh : ¬ s.Full → csGetProcessFromId s parentProcessId ≠ none → freeProcess s ≠ none → ∃ id s' q t,
    ckProcessCreate s stack stacksize priority pageDirectory pageDirSize cr3 procData parentProcessId = (id, s') ∧
      (s.processes q).pageDirectory = 0 ∧ (s'.processes q).id = id ∧ (s'.processes q).pMainThread = some t ∧
      (s.tasks t).selector = 0 ∧ (s'.tasks t).Live

/-! ## what they do -/

section
variable {s : TaskStruct} {stack stacksize : Nat} {priority : TaskPriority}

/-- **With a full table** the id of the task in the last slot is returned. -/
theorem ckTaskCreate_full {processId : Nat} {p : ProcPtr} (hfull : s.Full)
    (hp : csGetProcessFromId s processId = some p) : ckTaskCreate s stack stacksize processId priority =
      ((s.tasks ⟨maxTask - 1, by decide⟩).id, s) := ckTaskCreate_noSlot (full_iff.mp hfull) hp

/-- the id of a new task leads to its slot from then on, and to no task before -/
theorem created_found (hs : Stamped s) {t : TaskPtr} (ht : (s.tasks t).selector = 0) (p : ProcPtr) :
    csGetTaskFromId s (s.taskIdMask ||| t.val) = none ∧
      csGetTaskFromId (created s t stack stacksize p priority) (s.taskIdMask ||| t.val) = some t := by
  obtain ⟨k, hk⟩ := hs.taskMask
  have hne : s.taskIdMask ||| t.val ≠ taskInvalidId := hk ▸ taskHandle_ne t
  have hslot : (s.taskIdMask ||| t.val) &&& taskIdIdxMask = t.val := hk ▸ taskHandle_slot t
  constructor
  · have hdead : (s.tasks t).Live ∧ (s.tasks t).id = s.taskIdMask ||| t.val ↔ ¬ True :=
      iff_of_false (fun h => h.1.1 ht) (fun h => h trivial)
    rw [csGetTaskFromId_eq hne hslot hdead, if_pos trivial]
  · have hlive : ((created s t stack stacksize p priority).tasks t).Live ∧
        ((created s t stack stacksize p priority).tasks t).id = s.taskIdMask ||| t.val ↔ ¬ False := by
      rw [created_self]
      exact iff_of_true ⟨⟨newTask_used s t stack stacksize p priority, nofun⟩, rfl⟩ nofun
    rw [csGetTaskFromId_eq hne hslot hlive, if_neg nofun]

variable {pageDirectory pageDirSize cr3 : Nat} {procData : ProcessData} {parentProcessId : Nat}

/-- **With a full table** the process slot is filled in and the task in the last slot becomes its main thread. -/
theorem ckProcessCreate_full {parent q : ProcPtr} (hfull : s.Full)
    (hpar : csGetProcessFromId s parentProcessId = some parent) (hq : freeProcess s = some q) : ∃ s',
    ckProcessCreate s stack stacksize priority pageDirectory pageDirSize cr3 procData parentProcessId =
      (s.processIdMask ||| q.val, s') ∧ s'.tasks = s.tasks ∧ (s'.processes q).pageDirectory = pageDirectory ∧
      (s'.processes q).pMainThread = some ⟨maxTask - 1, by decide⟩ := by
  have hnone : freeTask (fillProcess s q parent pageDirectory pageDirSize cr3 procData) = none := by
    rw [fillProcess_eq]
    exact full_iff.mp hfull
  unfold ckProcessCreate
  rw [hpar, hq]
  simp only []
  unfold ckTaskCreate_unsafe
  rw [hnone, fillProcess_eq]
  refine ⟨_, rfl, rfl, ?_, ?_⟩
  · simp only [TaskStruct.setProcess, Function.update_self]
  · simp only [TaskStruct.setProcess, Function.update_self]

/-! ## when they do what they are to do -/

theorem createsTask_iff (hs : Stamped s) {processId : Nat} :
    CreatesTask s stack stacksize processId priority ↔ ¬ s.Full ∨ csGetProcessFromId s processId = none := by
  constructor
  · intro h
    by_contra hno
    obtain ⟨hfull, hp⟩ : s.Full ∧ csGetProcessFromId s processId ≠ none := by
      rw [not_or, not_not] at hno
      exact hno
    obtain ⟨p, hp⟩ := Option.ne_none_iff_exists'.mp hp
    have hret := (ckTaskCreate_full hfull hp).symm.trans (h.full hfull)
    exact hs.ids _ (congrArg Prod.fst hret)
  · intro h
    refine ⟨fun hfull => ckTaskCreate_unknown (h.resolve_left fun hn => hn hfull), ckTaskCreate_unknown,
      fun hfree hp => ?_⟩
    obtain ⟨p, hp⟩ := Option.ne_none_iff_exists'.mp hp
    obtain ⟨t, ht⟩ := Option.ne_none_iff_exists'.mp (fun e => hfree (full_iff.mpr e))
    have hsel := (freeTask_some ht).2
    have hfound : csGetTaskFromId s (s.taskIdMask ||| t.val) = none ∧
        csGetTaskFromId (created s t stack stacksize p priority) (s.taskIdMask ||| t.val) = some t :=
      created_found hs hsel p
    exact ⟨_, _, t, ckTaskCreate_free ht hp, hfound.1, hsel, hfound.2⟩

theorem createsProcess_iff (hs : Stamped s) :
    CreatesProcess s stack stacksize priority pageDirectory pageDirSize cr3 procData parentProcessId ↔
      ¬ s.Full ∨ csGetProcessFromId s parentProcessId = none ∨ freeProcess s = none := by
  constructor
  · intro h
    by_contra hno
    obtain ⟨hfull, hpar, hq⟩ : s.Full ∧ csGetProcessFromId s parentProcessId ≠ none ∧ freeProcess s ≠ none := by
      rw [not_or, not_or, not_not] at hno
      exact hno
    obtain ⟨parent, hpar⟩ := Option.ne_none_iff_exists'.mp hpar
    obtain ⟨q, hq⟩ := Option.ne_none_iff_exists'.mp hq
    obtain ⟨s', hcall, -⟩ := ckProcessCreate_full hfull hpar hq
    obtain ⟨s'', hret, -⟩ := h.full hfull
    obtain ⟨k, hk⟩ := hs.processMask
    have hid : s.processIdMask ||| q.val = processInvalidId := congrArg Prod.fst (hcall.symm.trans hret)
    rw [hk] at hid
    exact processHandle_ne q hid
  · intro h
    refine ⟨fun hfull => ⟨s, ckProcessCreate_none (h.resolve_left fun hn => hn hfull) _ _ _ _ _ _ _, rfl, rfl⟩,
      fun hno => ckProcessCreate_none hno _ _ _ _ _ _ _, fun hfree hpar hq => ?_⟩
    obtain ⟨parent, hpar⟩ := Option.ne_none_iff_exists'.mp hpar
    obtain ⟨q, hq⟩ := Option.ne_none_iff_exists'.mp hq
    obtain ⟨t, ht⟩ := Option.ne_none_iff_exists'.mp (fun e => hfree (full_iff.mpr e))
    have hnew := Function.update_self q (newProcess s q parent t pageDirectory pageDirSize cr3 procData) s.processes
    refine ⟨_, _, q, t, ckProcessCreate_eq hpar hq ht _ _ _ _ _ _ _, freeProcess_some hq, congrArg Process.id hnew,
      congrArg Process.pMainThread hnew, (freeTask_some ht).2, ?_⟩
    rw [created_self]
    exact ⟨newTask_used s t stack stacksize q priority, nofun⟩

end

/-- **Creation fails cleanly and creates what is new**, exactly unless it comes to the search of the task table and the
table is full. -/
theorem creates_iff {s : TaskStruct} (hs : Stamped s) (stack stacksize processId : Nat) (priority : TaskPriority)
    (pageDirectory pageDirSize cr3 : Nat) (procData : ProcessData) (parentProcessId : Nat) :
    (CreatesTask s stack stacksize processId priority ↔ ¬ s.Full ∨ csGetProcessFromId s processId = none) ∧
    (CreatesProcess s stack stacksize priority pageDirectory pageDirSize cr3 procData parentProcessId ↔
      ¬ s.Full ∨ csGetProcessFromId s parentProcessId = none ∨ freeProcess s = none) :=
  ⟨createsTask_iff hs, createsProcess_iff hs⟩

theorem creates_iff_boot : (CreatesTask bootState 0 0 0 .normal ↔
      ¬ bootState.Full ∨ csGetProcessFromId bootState 0 = none) ∧
    (CreatesProcess bootState 0 0 .normal 0x500000 0 0 ⟨0⟩ 0 ↔
      ¬ bootState.Full ∨ csGetProcessFromId bootState 0 = none ∨ freeProcess bootState = none) :=
  creates_iff (boot_stamped 0 fun _ => 0) 0 0 0 .normal 0x500000 0 0 ⟨0⟩ 0

/-! ## a full table -/

/-- the slots that a task can be created in -/
def TaskStruct.freeSlots (s : TaskStruct) : Finset TaskPtr :=
  Finset.univ.filter fun t => 2 ≤ t.val ∧ (s.tasks t).selector = 0

theorem mem_freeSlots {s : TaskStruct} {t : TaskPtr} : t ∈ s.freeSlots ↔ 2 ≤ t.val ∧ (s.tasks t).selector = 0 := by
  rw [TaskStruct.freeSlots, Finset.mem_filter, and_iff_right (Finset.mem_univ t)]

theorem full_of_freeSlots {s : TaskStruct} : s.Full ↔ s.freeSlots = ∅ := by
  rw [Finset.eq_empty_iff_forall_notMem]
  refine forall_congr' fun t => ?_
  rw [mem_freeSlots, not_and]

theorem freeSlots_created (s : TaskStruct) (t : TaskPtr) (stack stacksize : Nat) (p : ProcPtr)
    (priority : TaskPriority) : (created s t stack stacksize p priority).freeSlots = s.freeSlots.erase t := by
  ext u
  rw [Finset.mem_erase, mem_freeSlots, mem_freeSlots]
  by_cases e : u = t
  · rw [e, created_self]
    exact iff_of_false (fun h => newTask_used s t stack stacksize p priority h.2) (fun h => h.1 rfl)
  · rw [created_ne e]
    exact (and_iff_right e).symm

/-- `n` tasks are created in the kernel process -/
def crowd : Nat → TaskStruct
  | 0 => bootState
  | n+1 => (ckTaskCreate (crowd n) 0 0 kernelProcessId .normal).2

/-- each call takes one of the 2046 slots -/
theorem crowd_spec (n : Nat) : Reach 0 Op.Proper (crowd n) ∧ (crowd n).processes = bootState.processes ∧
    (crowd n).freeSlots.card = 2046 - n := by
  induction n with
  | zero => exact ⟨.boot 0 fun _ => 0, rfl, by decide +kernel⟩
  | succ n ih =>
    obtain ⟨hr, hprocs, hcard⟩ := ih
    have hproper : Op.Proper (crowd n) (.taskCreate 0 0 kernelProcessId .normal) := ⟨trivial, trivial⟩
    have hexec : exec 0 false (crowd n) (.taskCreate 0 0 kernelProcessId .normal) = some (crowd (n + 1)) := rfl
    have hreach : Reach 0 Op.Proper (crowd (n + 1)) := hr.call hproper hexec
    have hp : csGetProcessFromId (crowd n) kernelProcessId = some kernelProcess := by
      have hboot : csGetProcessFromId bootState kernelProcessId = some kernelProcess := by decide +kernel
      unfold csGetProcessFromId at hboot ⊢
      rw [hprocs]
      exact hboot
    cases ht : freeTask (crowd n) with
    | none =>
      have hfull := full_iff.mpr ht
      have e : crowd (n + 1) = crowd n := congrArg Prod.snd (ckTaskCreate_full hfull hp)
      rw [full_of_freeSlots.mp hfull, Finset.card_empty] at hcard
      rw [e] at hreach ⊢
      refine ⟨hreach, hprocs, ?_⟩
      rw [full_of_freeSlots.mp hfull, Finset.card_empty]
      omega
    | some t =>
      have e : crowd (n + 1) = created (crowd n) t 0 0 kernelProcess .normal :=
        congrArg Prod.snd (ckTaskCreate_free ht hp)
      refine ⟨hreach, e ▸ hprocs, ?_⟩
      rw [e, freeSlots_created, Finset.card_erase_of_mem (mem_freeSlots.mpr (freeTask_some ht)), hcard]
      omega

/-- **A full table**: after 2046 calls `ckTaskCreate` returns the id of a task that is there already, and a process gets
that task as its main thread. -/
theorem crowded_fails : Reach 0 Op.Proper (crowd 2046) ∧ (crowd 2046).Full ∧
    ¬ CreatesTask (crowd 2046) 0 0 kernelProcessId .normal ∧
    ¬ CreatesProcess (crowd 2046) 0 0 .normal 0x500000 0 0 ⟨0⟩ kernelProcessId := by
  obtain ⟨hr, hprocs, hcard⟩ := crowd_spec 2046
  have hfull : (crowd 2046).Full := full_of_freeSlots.mpr (Finset.card_eq_zero.mp hcard)
  have hp : csGetProcessFromId (crowd 2046) kernelProcessId ≠ none := by
    have hboot : csGetProcessFromId bootState kernelProcessId ≠ none := by decide +kernel
    unfold csGetProcessFromId at hboot ⊢
    rwa [hprocs]
  have hq : freeProcess (crowd 2046) ≠ none := by
    have hboot : freeProcess bootState ≠ none := by decide +kernel
    unfold freeProcess at hboot ⊢
    rwa [hprocs]
  refine ⟨hr, hfull, fun h => ?_, fun h => ?_⟩
  · exact ((createsTask_iff hr.stamped).mp h).elim (fun hn => hn hfull) hp
  · exact ((createsProcess_iff hr.stamped).mp h).elim (fun hn => hn hfull) (fun hn => hn.elim hp hq)

end Clubcos
