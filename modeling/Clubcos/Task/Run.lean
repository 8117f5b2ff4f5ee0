import Clubcos.Task.Exit

/-!
# Runs of the scheduler

`Op` are the calls that tasks, interrupts and the idle task make, `exec` their effect.  A run starts at
`ckTaskStructInitialize` and makes any number of calls, one after the other.

* `Step`           what a call can do to the tasks;
* `exec_spec`      **every allowed call comes back**, is a `Step` and keeps the invariant;
* `Reach.inv`      so the invariant holds in every state of a run.
-/

set_option linter.unusedVariables false
set_option linter.unusedSectionVars false

namespace Clubcos
open Word

/-! ## scheduling and joining -/

theorem Switched.live {s s' : TaskStruct} {t : TaskPtr} {hw : Bool} {p : TaskPriority}
    (ht : s.place t = some (.ready p)) (hs : Switched s t hw s') (j : TaskPtr) :
    (s'.tasks j).Live ↔ (s.tasks j).Live := by
  obtain ⟨hsel, hexit⟩ := hs.exit_iff ht j
  unfold Task.Live
  rw [hsel]
  exact and_congr_right' (not_congr hexit)

theorem schedule_spec {s : TaskStruct} (hi : TaskInv s) (hw : Bool) :
    (∃ count, ckTaskSchedule_internal s hw = some (false, { s with executeCount := count })) ∨
      ∃ t p s', s.place t = some (.ready p) ∧ ckTaskSchedule_internal s hw = some (true, s') ∧
        Switched s t hw s' ∧ TaskInv s' := by
  obtain ⟨hsched, hrun⟩ := hi
  have hnow : (s.tasks s.pNow).flag ≠ .ready := fun h => by
    rw [hrun.2] at h
    cases h
  rcases hsched.schedule hrun.1 hnow hw with ⟨_, hcount⟩ | ⟨t, p, s', ht, e, hs, hi', hr⟩
  · exact Or.inl hcount
  · exact Or.inr ⟨t, p, s', ht, e, hs, hi'.congr_live fun j => (hs.live ht j).symm, hr⟩

/-- the current task in `WaitList` and in the `WaitMeList` of `u`, before the next one is chosen -/
def joined (s : TaskStruct) (u : TaskPtr) : TaskStruct :=
  { s with
    tasks := Function.update s.tasks s.pNow { s.tasks s.pNow with waitObj := some u, flag := .wait }
    waits := ckLinkedListPushBack_lockfree s.waits u s.pNow
    nodes := ckLinkedListPushBack_lockfree s.nodes .wait s.pNow }

theorem joined_self {s : TaskStruct} {u : TaskPtr} :
    (joined s u).tasks s.pNow = { s.tasks s.pNow with waitObj := some u, flag := .wait } := Function.update_self _ _ _

theorem joined_ne {s : TaskStruct} {u j : TaskPtr} (e : j ≠ s.pNow) : (joined s u).tasks j = s.tasks j :=
  Function.update_of_ne e _ _

theorem joined_live {s : TaskStruct} (hr : Running s) (u j : TaskPtr) :
    ((joined s u).tasks j).Live ↔ (s.tasks j).Live := by
  by_cases e : j = s.pNow
  · rw [e, joined_self]
    refine iff_of_true ⟨hr.1, fun h => by cases h⟩ ⟨hr.1, fun h => ?_⟩
    rw [hr.2] at h
    cases h
  · rw [show (joined s u).tasks j = s.tasks j from Function.update_of_ne e _ _]

theorem joinOn_eq {s : TaskStruct} (hr : (s.tasks s.pNow).flag = .running) (u : TaskPtr) (hw : Bool) :
    joinOn s u hw = (ckTaskSchedule_internal (joined s u) hw).map Prod.snd := by
  let s₁ : TaskStruct := { s.setTask s.pNow fun t => { t with waitObj := some u } with
    waits := ckLinkedListPushBack_lockfree s.waits u s.pNow }
  have hself : s₁.tasks s.pNow = { s.tasks s.pNow with waitObj := some u } := Function.update_self _ _ _
  have hf : (s₁.tasks s.pNow).flag = .running := by
    rw [hself]
    exact hr
  let s₂ := ({ s₁ with nodes := ckLinkedListPushBack_lockfree s₁.nodes .wait s₁.pNow } : TaskStruct).setTask
    s.pNow fun t => { t with flag := .wait }
  have hjoined : s₂ = joined s u :=
    congrArg (fun f => ({ s with tasks := f, waits := _, nodes := _ } : TaskStruct))
      (update_twice s.tasks s.pNow (fun t => { t with waitObj := some u }) (fun t => { t with flag := .wait }))
  show (ckTaskSuspend_byptr s₁ s.pNow hw).map Prod.snd = _
  unfold ckTaskSuspend_byptr
  rw [hf]
  show ((ckTaskSchedule_internal s₂ hw).bind fun x => some (true, x.2)).map Prod.snd = _
  rw [hjoined]
  cases ckTaskSchedule_internal (joined s u) hw <;> rfl

theorem joinOn_spec {s : TaskStruct} (hi : TaskInv s) {u : TaskPtr} (hu : (s.tasks u).Live)
    (hidle : s.pNow ≠ idleTask) (hw : Bool) : ∃ t p s', (joined s u).place t = some (.ready p) ∧
      joinOn s u hw = some s' ∧ Switched (joined s u) t hw s' ∧ TaskInv s' := by
  obtain ⟨hsched, hrun⟩ := hi
  have hslot := hsched.toSlotInv
  have hnow : (joined s u).pNow = s.pNow := rfl
  have hlive := joined_live hrun u
  have hput : (joined s u).place s.pNow = some .wait := by
    rw [TaskStruct.place, joined_self]
    exact place_wait hrun.1 rfl
  have hwo : s.waitObj s.pNow = none := hslot.waits_not fun h => by
    rw [hrun.2] at h
    cases h
  have hi₁ : SchedInv (joined s u) fun j => (s.tasks j).Live := by
    refine ⟨hslot.keep (fun _ e => joined_ne e) rfl (fun _ => rfl) (fun _ => ⟨hidle, by rw [joined_self], by rw [joined_self]⟩) ?_, ?_, ?_⟩
    · have hfits := hslot.fits s.pNow
      refine ⟨(hlive _).mpr, fun v hv => ?_, fun _ _ => ?_, fun _ h => ?_, fun hl => ?_, fun p _ hp => ?_, fun _ h => ?_⟩
      all_goals rw [joined_self] at *
      · obtain rfl : u = v := Option.some.inj hv
        exact ⟨hu, hrun.1, rfl⟩
      · exact Option.some_ne_none u
      · cases h
      · exact hfits.proc hl
      · exact hfits.parent p hrun.1 hp
      · cases h
    · have hno : ∀ l, True → s.place s.pNow ≠ some l := fun l _ h => by
        rw [TaskStruct.place, place_running hrun.2] at h
        cases h
      refine (hsched.places.push (l := .wait) trivial hno).congr fun l _ j => ?_
      by_cases e : j = s.pNow
      · rw [e, Function.update_self, hput]
      · rw [Function.update_of_ne e, TaskStruct.place, TaskStruct.place, joined_ne e]
    · have hno : ∀ l, (s.tasks l).Live → s.waitObj s.pNow ≠ some l := fun l _ h => by
        rw [hwo] at h
        cases h
      refine (hsched.waits.push hu hno).congr fun l _ j => ?_
      by_cases e : j = s.pNow
      · rw [e, Function.update_self, TaskStruct.waitObj, joined_self]
      · rw [Function.update_of_ne e, TaskStruct.waitObj, TaskStruct.waitObj, joined_ne e]
  have hused : ((joined s u).tasks (joined s u).pNow).selector ≠ 0 := by
    rw [hnow, joined_self]
    exact hrun.1
  have hready : ((joined s u).tasks (joined s u).pNow).flag ≠ .ready := by
    rw [hnow, joined_self]
    exact fun h => by cases h
  -- the idle task is READY: it is not the one that joins
  have hidle' : (joined s u).place idleTask = some (.ready (s.tasks idleTask).priority) := by
    have hsel := (hslot.live _ hslot.idle.1).1
    have hf : (s.tasks idleTask).flag = .ready :=
      hslot.idle.2.resolve_right fun h => hidle (hslot.single _ hsel h).symm
    rw [TaskStruct.place, joined_ne hidle.symm]
    exact place_ready hsel hf
  rcases hi₁.schedule hused hready hw with ⟨hnone, _⟩ | ⟨t, p, s', ht, e, hs, hi', hr⟩
  · exact absurd hidle' (hnone _ _)
  · refine ⟨t, p, s', ht, ?_, hs, hi'.congr_live fun j => ?_, hr⟩
    · rw [joinOn_eq hrun.2, e]
      rfl
    · rw [hs.live ht j, hlive j]

/-! ## calls -/

/-- the calls; `idleReap` is made by the idle task, `fpu f` is an FPU instruction of the current task,
`write` a change of a page table by the code around -/
inductive Op where
  | taskCreate (stack stacksize processId : Nat) (priority : TaskPriority)
  | processCreate (stack stacksize : Nat) (priority : TaskPriority) (pageDirectory pageDirSize cr3 : Nat)
      (procData : ProcessData) (parentProcessId : Nat)
  | schedule
  | timerInt
  | taskJoin (taskId : Nat)
  | processJoin (procId : Nat)
  | taskTerminate (taskId : Nat)
  | processTerminate (processId : Nat)
  | taskResume (taskId : Nat)
  | idleReap
  | fpu (f : FpuContext → FpuContext)
  | write (addr value : Nat)

/-- `finit` is the initial value of the FPU registers; `none` is a call that does not come back -/
def exec (finit : FpuContext) (hw : Bool) (s : TaskStruct) : Op → Option TaskStruct
  | .taskCreate stack stacksize processId priority =>
    some (ckTaskCreate s stack stacksize processId priority).2
  | .processCreate stack stacksize priority pageDirectory pageDirSize cr3 procData parentProcessId =>
    some (ckProcessCreate s stack stacksize priority pageDirectory pageDirSize cr3 procData parentProcessId).2
  | .schedule => (ckTaskSchedule_internal s hw).map Prod.snd
  | .timerInt => ckTaskScheduleOnTimerInt s hw
  | .taskJoin taskId => ckTaskJoin s taskId hw
  | .processJoin procId => ckProcessJoin s procId hw
  | .taskTerminate taskId => (ckTaskTerminate s taskId hw).map Prod.snd
  | .processTerminate processId => (ckProcessTerminate s processId hw).map Prod.snd
  | .taskResume taskId => (ckTaskResume s taskId).map Prod.snd
  | .idleReap => idleReap s
  | .fpu f => some (fpuInstruction finit f s)
  | .write addr value => some { s with pages := s.pages.write addr value }

/-- The calls that are made: a process is created while a task slot is free, the idle task runs
`csIdleTask`, which joins nobody, and the kernel and the idle task are not terminated. -/
def Op.Allowed (s : TaskStruct) : Op → Prop
  | .processCreate .. => freeTask s ≠ none
  | .taskJoin _ => s.pNow ≠ idleTask
  | .processJoin _ => s.pNow ≠ idleTask
  | .taskTerminate taskId => taskId ≠ kernelTaskId ∧ taskId ≠ idleTaskId
  | .processTerminate processId => processId ≠ kernelProcessId
  | .taskResume taskId => taskId ≠ kernelTaskId ∧ taskId ≠ idleTaskId
  | .idleReap => s.pNow = idleTask
  | _ => True

/-- `ckTaskResume` is not called for a task that waits for another one -/
def Op.ResumesNoWaiter (s : TaskStruct) : Op → Prop
  | .taskResume taskId => ∀ t ∈ csGetTaskFromId s taskId, (s.tasks t).waitObj = none
  | _ => True

/-! ## what a call does -/

/-- only counters and the memory around have changed -/
structure Untouched (s s' : TaskStruct) : Prop where
  tasks : s'.tasks = s.tasks
  processes : s'.processes = s.processes
  nodes : s'.nodes = s.nodes
  waits : s'.waits = s.waits
  threads : s'.threads = s.threads
  children : s'.children = s.children
  now : s'.pNow = s.pNow
  ts : s'.ts = s.ts
  fpu : s'.fpu = s.fpu
  last : s'.pLastTaskUsedFPU = s.pLastTaskUsedFPU

/-- a process that `csGetProcessFromId` finds -/
def Process.Valid (p : Process) : Prop := p.pageDirectory ≠ 0 ∧ p.pMainThread ≠ none

/-- What a call does to the tasks, case by case. -/
inductive Step (finit : FpuContext) (hw : Bool) (s : TaskStruct) : Op → TaskStruct → Prop
  | untouched {op s'} : Untouched s s' → Step finit hw s op s'
  | taskCreated {stack stacksize processId priority i p} : freeTask s = some i → (s.processes p).Valid →
      Step finit hw s (.taskCreate stack stacksize processId priority) (created s i stack stacksize p priority)
  | processCreated {stack stacksize priority pageDirectory pageDirSize cr3 procData parentProcessId i parent q} :
      freeTask s = some i → freeProcess s = some q → (s.processes parent).Valid →
      Step finit hw s
        (.processCreate stack stacksize priority pageDirectory pageDirSize cr3 procData parentProcessId)
        { created s i stack stacksize q priority with
          threads := ckLinkedListPushBack_lockfree (ckLinkedListInit s.threads q) q i
          children := ckLinkedListPushBack_lockfree (ckLinkedListInit s.children q) parent q
          processIdMask := u32 (s.processIdMask + processIdMaskUnit)
          processes := Function.update s.processes q
            (newProcess s q parent i pageDirectory pageDirSize cr3 procData) }
  | switched {op t p s'} : s.place t = some (.ready p) → Switched s t hw s' → Step finit hw s op s'
  | joined {op u t p s'} : (s.tasks u).Live → (joined s u).place t = some (.ready p) →
      Switched (joined s u) t hw s' → Step finit hw s op s'
  | exited {op u r s₁ s'} : (s.tasks u).Live → Departed s u r s₁ → u = s.pNow → Exited s₁ u hw s' →
      Step finit hw s op s'
  | killed {op u r s₁ h h' g} : (s.tasks u).Live → Departed s u r s₁ → u ≠ s.pNow →
      Step finit hw s op (killed s₁ u r h h' g)
  | buried {op u g} : s.place u = some .waitForExit → Step finit hw s op (buried s u g)
  | fpu {f} : Step finit hw s (.fpu f) (fpuInstruction finit f s)

/-- the fields of a task that the scheduler looks at -/
def Task.core (t : Task) : Option TaskPtr × Nat × TaskFlag × TaskPriority × Option ProcPtr × Nat :=
  (t.waitObj, t.selector, t.flag, t.priority, t.pProcess, t.id)

theorem TaskInv.frame {s s' : TaskStruct} (hi : TaskInv s) (htasks : ∀ j, (s'.tasks j).core = (s.tasks j).core)
    (hprocs : s'.processes = s.processes) (hnodes : s'.nodes = s.nodes) (hwaits : s'.waits = s.waits)
    (hnow : s'.pNow = s.pNow) : TaskInv s' := by
  obtain ⟨⟨hslot, hplaces, hwait⟩, hrun⟩ := hi
  have hwo : ∀ j, (s'.tasks j).waitObj = (s.tasks j).waitObj := fun j => congrArg (·.1) (htasks j)
  have hsel : ∀ j, (s'.tasks j).selector = (s.tasks j).selector := fun j => congrArg (·.2.1) (htasks j)
  have hflag : ∀ j, (s'.tasks j).flag = (s.tasks j).flag := fun j => congrArg (·.2.2.1) (htasks j)
  have hprio : ∀ j, (s'.tasks j).priority = (s.tasks j).priority := fun j => congrArg (·.2.2.2.1) (htasks j)
  have hproc : ∀ j, (s'.tasks j).pProcess = (s.tasks j).pProcess := fun j => congrArg (·.2.2.2.2.1) (htasks j)
  have hid : ∀ j, (s'.tasks j).id = (s.tasks j).id := fun j => congrArg (·.2.2.2.2.2) (htasks j)
  have hlive : ∀ j, (s'.tasks j).Live ↔ (s.tasks j).Live := fun j => by rw [Task.Live, Task.Live, hsel, hflag]
  have hslot' : SlotInv s' fun t => (s.tasks t).Live := by
    obtain ⟨_, h2, h3, h4, h5, h6, h7, h8, h9, h10, h11, h12, h13, h14⟩ := hslot
    refine ⟨fun t ht => (hlive t).mpr ht, ?_, ?_, ?_, h5, ?_, ?_, ?_, ?_, ?_, ?_, ?_, ?_, ?_⟩
    all_goals simpa only [hwo, hsel, hflag, hproc, hid, hprocs, hnow]
  refine ⟨SchedInv.congr_live ⟨hslot', ?_, ?_⟩ fun t => (hlive t).symm, ?_⟩
  · rw [hnodes]
    refine hplaces.congr fun l _ j => ?_
    rw [TaskStruct.place, TaskStruct.place, Task.place, Task.place, hsel, hflag, hprio]
  · rw [hwaits]
    exact hwait.congr fun l _ j => by rw [TaskStruct.waitObj, TaskStruct.waitObj, hwo]
  · unfold Running
    rw [hnow, hsel, hflag]
    exact hrun

theorem Untouched.refl (s : TaskStruct) : Untouched s s := ⟨rfl, rfl, rfl, rfl, rfl, rfl, rfl, rfl, rfl, rfl⟩

theorem Untouched.counters (s : TaskStruct) (count : TaskPriority → Nat) (n : Nat) (g : Pages) :
    Untouched s { s with executeCount := count, remainQuantum := n, pages := g } :=
  ⟨rfl, rfl, rfl, rfl, rfl, rfl, rfl, rfl, rfl, rfl⟩

theorem Untouched.inv {s s' : TaskStruct} (hi : TaskInv s) (h : Untouched s s') : TaskInv s' :=
  hi.frame (fun j => by rw [h.tasks]) h.processes h.nodes h.waits h.now

theorem fpuSave_eq (s : TaskStruct) : fpuSave s = { s with
    tasks := fun j => { s.tasks j with
      fpuContext := if s.pLastTaskUsedFPU = some j then s.fpu else (s.tasks j).fpuContext } } := by
  unfold fpuSave
  split
  · rename_i l h
    refine congrArg (fun f => ({ s with tasks := f } : TaskStruct)) ?_
    refine update_eq_fun (fun (t : Task) c => { t with fpuContext := c }) ?_ fun j e => ?_
    · rw [if_pos h]
    · rw [if_neg fun h' => e (Option.some.inj (h.symm.trans h')).symm]
  · rename_i h
    have hkeep : (fun j => { s.tasks j with
        fpuContext := if s.pLastTaskUsedFPU = some j then s.fpu else (s.tasks j).fpuContext }) = s.tasks := by
      funext j
      rw [if_neg fun h' => by rw [h] at h'; cases h']
    rw [hkeep]

theorem fpuLoad_eq (finit : FpuContext) (s : TaskStruct) : fpuLoad finit s = { s with
    tasks := fun j => { s.tasks j with bFpuUsed := if j = s.pNow then true else (s.tasks j).bFpuUsed }
    fpu := if (s.tasks s.pNow).bFpuUsed then (s.tasks s.pNow).fpuContext else finit } := by
  unfold fpuLoad
  by_cases h : (s.tasks s.pNow).bFpuUsed = true
  · have hkeep : (fun j => { s.tasks j with bFpuUsed := if j = s.pNow then true else (s.tasks j).bFpuUsed })
        = s.tasks := by
      funext j
      by_cases e : j = s.pNow
      · subst e
        rw [if_pos rfl, ← h]
      · rw [if_neg e]
    rw [if_pos h, if_pos h, hkeep]
  · rw [if_neg h, if_neg h]
    refine congrArg (fun f => ({ s with tasks := f, fpu := finit } : TaskStruct)) ?_
    refine update_eq_fun (fun (t : Task) c => { t with bFpuUsed := c }) ?_ fun j e => ?_
    · rw [if_pos rfl]
    · rw [if_neg e]

/-- the exception handler when the registers belong to the current task -/
theorem handler_owner {finit : FpuContext} {s : TaskStruct} (h : some s.pNow = s.pLastTaskUsedFPU) :
    ck_ExceptIntHandler07 finit s = { s with ts := false } := if_neg (not_not_intro h)

/-- the exception handler when they belong to another task, or to none -/
theorem handler_other {finit : FpuContext} {s : TaskStruct} (h : some s.pNow ≠ s.pLastTaskUsedFPU) :
    ck_ExceptIntHandler07 finit s = { s with
      tasks := fun j => { s.tasks j with
        fpuContext := if s.pLastTaskUsedFPU = some j then s.fpu else (s.tasks j).fpuContext
        bFpuUsed := if j = s.pNow then true else (s.tasks j).bFpuUsed }
      ts := false
      fpu := if (s.tasks s.pNow).bFpuUsed then (s.tasks s.pNow).fpuContext else finit
      pLastTaskUsedFPU := some s.pNow } := by
  have e : ck_ExceptIntHandler07 finit s = { fpuLoad finit (fpuSave { s with ts := false }) with
      pLastTaskUsedFPU := some (fpuLoad finit (fpuSave { s with ts := false })).pNow } := if_pos h
  have hown : ¬ s.pLastTaskUsedFPU = some s.pNow := Ne.symm h
  rw [e, fpuLoad_eq, fpuSave_eq]
  simp only [if_neg hown]

/-- an FPU instruction changes nothing that the scheduler looks at -/
theorem fpuInstruction_eq (finit : FpuContext) (f : FpuContext → FpuContext) (s : TaskStruct) :
    ∃ (ctx : TaskPtr → FpuContext) (used : TaskPtr → Bool) (ts : Bool) (fpu : FpuContext) (last : Option TaskPtr),
      fpuInstruction finit f s = { s with
        tasks := fun j => { s.tasks j with fpuContext := ctx j, bFpuUsed := used j }
        ts := ts, fpu := fpu, pLastTaskUsedFPU := last } := by
  unfold fpuInstruction fpuReady
  by_cases hts : s.ts = true
  · rw [if_pos hts]
    by_cases h : some s.pNow = s.pLastTaskUsedFPU
    · rw [handler_owner h]
      exact ⟨fun j => (s.tasks j).fpuContext, fun j => (s.tasks j).bFpuUsed, _, _, _, rfl⟩
    · rw [handler_other h]
      exact ⟨_, _, _, _, _, rfl⟩
  · rw [if_neg hts]
    exact ⟨fun j => (s.tasks j).fpuContext, fun j => (s.tasks j).bFpuUsed, _, _, _, rfl⟩

theorem fpuInstruction_inv {finit : FpuContext} {s : TaskStruct} (hi : TaskInv s) (f : FpuContext → FpuContext) :
    TaskInv (fpuInstruction finit f s) := by
  obtain ⟨ctx, used, ts, fpu, last, e⟩ := fpuInstruction_eq finit f s
  rw [e]
  exact hi.frame (fun _ => rfl) rfl rfl rfl rfl

section
variable (finit : FpuContext) (hw : Bool) {s : TaskStruct} (hi : TaskInv s)
include hi

theorem schedule_step (op : Op) : ∃ b s', ckTaskSchedule_internal s hw = some (b, s') ∧ TaskInv s' ∧
    Step finit hw s op s' := by
  rcases schedule_spec hi hw with ⟨count, e⟩ | ⟨t, p, s', ht, e, hs, hi'⟩
  · have hu := Untouched.counters s count s.remainQuantum s.pages
    exact ⟨_, _, e, hu.inv hi, .untouched hu⟩
  · exact ⟨_, _, e, hi', .switched ht hs⟩

theorem setQuantum_step (op : Op) (n : Nat) : ∃ s', setQuantum s n hw = some s' ∧ TaskInv s' ∧
    Step finit hw s op s' := by
  have hu := Untouched.counters s s.executeCount n s.pages
  have hi₁ : TaskInv { s with remainQuantum := n } := hu.inv hi
  unfold setQuantum
  by_cases h : n = 0
  · rw [if_pos h]
    rcases schedule_spec hi₁ hw with ⟨count, e⟩ | ⟨t, p, s', ht, e, hs, hi'⟩
    · have hu' := Untouched.counters s count n s.pages
      exact ⟨_, congrArg (Option.map Prod.snd) e, hu'.inv hi, .untouched hu'⟩
    · exact ⟨s', congrArg (Option.map Prod.snd) e, hi', .switched ht
        ⟨hs.tasks, hs.processes, hs.now, hs.ts, hs.waits, hs.threads, hs.children, hs.pages, hs.last, hs.fpu⟩⟩
  · rw [if_neg h]
    exact ⟨_, rfl, hi₁, .untouched hu⟩

theorem timerInt_step : ∃ s', ckTaskScheduleOnTimerInt s hw = some s' ∧ TaskInv s' ∧
    Step finit hw s .timerInt s' := by
  unfold ckTaskScheduleOnTimerInt
  exact setQuantum_step finit hw hi .timerInt _

theorem joinOn_step (op : Op) {u : TaskPtr} (hu : (s.tasks u).Live) (hidle : s.pNow ≠ idleTask) :
    ∃ s', joinOn s u hw = some s' ∧ TaskInv s' ∧ Step finit hw s op s' := by
  obtain ⟨t, p, s', ht, e, hs, hi'⟩ := joinOn_spec hi hu hidle hw
  exact ⟨s', e, hi', .joined hu ht hs⟩

theorem now_waits_not : (s.tasks s.pNow).waitObj = none := hi.1.toSlotInv.waits_not fun h => by
  rw [hi.2.2] at h
  cases h

theorem taskJoin_step (taskId : Nat) (hidle : s.pNow ≠ idleTask) :
    ∃ s', ckTaskJoin s taskId hw = some s' ∧ TaskInv s' ∧ Step finit hw s (.taskJoin taskId) s' := by
  unfold ckTaskJoin
  rw [if_pos (now_waits_not hi)]
  cases hu : csGetTaskFromId s taskId with
  | none => exact ⟨s, rfl, hi, .untouched (.refl s)⟩
  | some u =>
    have hlive := (csGetTaskFromId_some hu).1
    simp only [if_pos hlive.2]
    exact joinOn_step finit hw hi _ hlive hidle

theorem processJoin_step (procId : Nat) (hidle : s.pNow ≠ idleTask) :
    ∃ s', ckProcessJoin s procId hw = some s' ∧ TaskInv s' ∧ Step finit hw s (.processJoin procId) s' := by
  unfold ckProcessJoin
  rw [if_pos (now_waits_not hi)]
  cases hp : csGetProcessFromId s procId with
  | none => exact ⟨s, rfl, hi, .untouched (.refl s)⟩
  | some p =>
    obtain ⟨u, hu⟩ := Option.ne_none_iff_exists'.mp (csGetProcessFromId_some hp).2.2
    have hlive := (hi.1.main p u hu).1
    show ∃ s', ((s.processes p).pMainThread.bind fun u => joinOn s u hw) = some s' ∧ _
    rw [hu]
    exact joinOn_step finit hw hi _ hlive hidle

theorem terminate_step (op : Op) {u : TaskPtr} (hu : (s.tasks u).Live) (hk : u ≠ kernelTask) (hidle : u ≠ idleTask) :
    ∃ s', ckTaskTerminate_internal s u hw = some s' ∧ TaskInv s' ∧ Step finit hw s op s' := by
  obtain ⟨r, s₁, s', hd, e, hi', ⟨hnow, hex⟩ | ⟨hnow, h, h', g, rfl⟩⟩ := terminate_spec hi hu hk hidle hw
  · exact ⟨s', e, hi', .exited hu hd hnow hex⟩
  · exact ⟨_, e, hi', .killed hu hd hnow⟩

theorem taskTerminate_step (taskId : Nat) (ha : taskId ≠ kernelTaskId ∧ taskId ≠ idleTaskId) :
    ∃ b s', ckTaskTerminate s taskId hw = some (b, s') ∧ TaskInv s' ∧
      Step finit hw s (.taskTerminate taskId) s' := by
  unfold ckTaskTerminate
  rw [if_pos ha]
  cases hu : csGetTaskFromId s taskId with
  | none => exact ⟨false, s, rfl, hi, .untouched (.refl s)⟩
  | some u =>
    obtain ⟨hlive, hid⟩ := csGetTaskFromId_some hu
    have hk : u ≠ kernelTask := fun e => ha.1 (hid.symm.trans (e ▸ hi.1.ids.1))
    have hidle : u ≠ idleTask := fun e => ha.2 (hid.symm.trans (e ▸ hi.1.ids.2.1))
    obtain ⟨s', e, hi', hs⟩ := terminate_step finit hw hi (.taskTerminate taskId) hlive hk hidle
    refine ⟨true, s', ?_, hi', hs⟩
    show (ckTaskTerminate_internal s u hw).bind _ = _
    rw [e]
    rfl

theorem processTerminate_step (processId : Nat) (ha : processId ≠ kernelProcessId) :
    ∃ b s', ckProcessTerminate s processId hw = some (b, s') ∧ TaskInv s' ∧
      Step finit hw s (.processTerminate processId) s' := by
  unfold ckProcessTerminate
  rw [if_pos ha]
  cases hp : csGetProcessFromId s processId with
  | none => exact ⟨false, s, rfl, hi, .untouched (.refl s)⟩
  | some p =>
    obtain ⟨_, hid, hne⟩ := csGetProcessFromId_some hp
    obtain ⟨u, hu⟩ := Option.ne_none_iff_exists'.mp hne
    obtain ⟨hlive, hproc⟩ := hi.1.main p u hu
    have hp0 : p ≠ kernelProcess := fun e => ha (hid.symm.trans (e ▸ hi.1.ids.2.2))
    -- the main threads of two processes are different, and the idle task is in the kernel process
    have hk : u ≠ kernelTask := fun e =>
      hp0 (Option.some.inj (hproc.symm.trans (e ▸ (hi.1.main _ _ hi.1.main0).2)))
    have hidle : u ≠ idleTask := fun e => hp0 (Option.some.inj (hproc.symm.trans (e ▸ hi.1.idle0)))
    obtain ⟨s', e, hi', hs⟩ := terminate_step finit hw hi (.processTerminate processId) hlive hk hidle
    refine ⟨true, s', ?_, hi', hs⟩
    show ((s.processes p).pMainThread.bind fun u => (ckTaskTerminate_internal s u hw).bind _) = _
    rw [hu]
    show (ckTaskTerminate_internal s u hw).bind _ = _
    rw [e]
    rfl

theorem taskResume_step (taskId : Nat) (ha : taskId ≠ kernelTaskId ∧ taskId ≠ idleTaskId)
    (hn : ∀ t, csGetTaskFromId s taskId = some t → (s.tasks t).waitObj = none) :
    ckTaskResume s taskId = some (false, s) := by
  unfold ckTaskResume
  rw [if_pos ha]
  cases ht : csGetTaskFromId s taskId with
  | none => rfl
  | some t =>
    have hf : (s.tasks t).flag ≠ .wait := fun h =>
      hi.1.waiting t (csGetTaskFromId_some ht).1.1 h (hn t ht)
    show some (ckTaskResume_byptr s t) = _
    unfold ckTaskResume_byptr
    rw [if_neg hf]

theorem taskCreate_step (stack stacksize processId : Nat) (priority : TaskPriority) :
    Step finit hw s (.taskCreate stack stacksize processId priority)
      (ckTaskCreate s stack stacksize processId priority).2 := by
  rcases ckTaskCreate_cases s stack stacksize processId priority with e | ⟨p, i, hp, hf, e⟩
  · rw [e]
    exact .untouched (.refl s)
  · rw [e]
    obtain ⟨h1, _, h2⟩ := csGetProcessFromId_some hp
    exact .taskCreated hf ⟨h1, h2⟩

theorem processCreate_step (stack stacksize : Nat) (priority : TaskPriority) (pageDirectory pageDirSize cr3 : Nat)
    (procData : ProcessData) (parentProcessId : Nat) (hfree : freeTask s ≠ none) :
    Step finit hw s
      (.processCreate stack stacksize priority pageDirectory pageDirSize cr3 procData parentProcessId)
      (ckProcessCreate s stack stacksize priority pageDirectory pageDirSize cr3 procData parentProcessId).2 := by
  obtain ⟨i, hf⟩ := Option.ne_none_iff_exists'.mp hfree
  cases hpar : csGetProcessFromId s parentProcessId with
  | none =>
    rw [ckProcessCreate_none (Or.inl hpar)]
    exact .untouched (.refl s)
  | some parent =>
    cases hq : freeProcess s with
    | none =>
      rw [ckProcessCreate_none (Or.inr hq)]
      exact .untouched (.refl s)
    | some q =>
      rw [ckProcessCreate_eq hpar hq hf]
      obtain ⟨h1, _, h2⟩ := csGetProcessFromId_some hpar
      exact .processCreated hf hq ⟨h1, h2⟩

/-- **Every allowed call comes back**, does one of the things listed in `Step` and keeps the invariant. -/
theorem exec_spec {op : Op} (ha : op.Allowed s) (hn : op.ResumesNoWaiter s) :
    ∃ s', exec finit hw s op = some s' ∧ TaskInv s' ∧ Step finit hw s op s' := by
  cases op with
  | taskCreate stack stacksize processId priority =>
    exact ⟨_, rfl, ckTaskCreate_inv hi _ _ _ _, taskCreate_step finit hw hi _ _ _ _⟩
  | processCreate stack stacksize priority pageDirectory pageDirSize cr3 procData parentProcessId =>
    exact ⟨_, rfl, ckProcessCreate_inv hi ha _ _ _ _ _ _ _ _, processCreate_step finit hw hi _ _ _ _ _ _ _ _ ha⟩
  | schedule =>
    obtain ⟨b, s', e, h⟩ := schedule_step finit hw hi .schedule
    exact ⟨s', congrArg (Option.map Prod.snd) e, h⟩
  | timerInt => exact timerInt_step finit hw hi
  | taskJoin taskId => exact taskJoin_step finit hw hi taskId ha
  | processJoin procId => exact processJoin_step finit hw hi procId ha
  | taskTerminate taskId =>
    obtain ⟨b, s', e, h⟩ := taskTerminate_step finit hw hi taskId ha
    exact ⟨s', congrArg (Option.map Prod.snd) e, h⟩
  | processTerminate processId =>
    obtain ⟨b, s', e, h⟩ := processTerminate_step finit hw hi processId ha
    exact ⟨s', congrArg (Option.map Prod.snd) e, h⟩
  | taskResume taskId =>
    exact ⟨s, congrArg (Option.map Prod.snd) (taskResume_step hi taskId ha hn), hi, .untouched (.refl s)⟩
  | idleReap =>
    rcases idleReap_spec hi with ⟨_, e⟩ | ⟨u, g, hu, e, hi'⟩
    · exact ⟨s, e, hi, .untouched (.refl s)⟩
    · exact ⟨_, e, hi', .buried hu⟩
  | fpu f => exact ⟨_, rfl, fpuInstruction_inv hi f, .fpu⟩
  | write addr value =>
    have hu := Untouched.counters s s.executeCount s.remainQuantum (s.pages.write addr value)
    exact ⟨{ s with pages := s.pages.write addr value }, rfl, hu.inv hi, .untouched hu⟩

end

/-! ## runs -/

/-- the states of the runs whose calls are all made in a state with `ok` -/
inductive Reach (finit : FpuContext) (ok : TaskStruct → Op → Prop) : TaskStruct → Prop
  | boot (fpu mem) : Reach finit ok (ckTaskStructInitialize fpu mem)
  | call {s op hw s'} : Reach finit ok s → ok s op → exec finit hw s op = some s' → Reach finit ok s'

/-- the part of a run from `s` on in which every state after a call satisfies `K` -/
inductive Path (finit : FpuContext) (ok : TaskStruct → Op → Prop) (K : TaskStruct → Prop) (s : TaskStruct) :
    TaskStruct → Prop
  | refl : Path finit ok K s s
  | call {s₁ op hw s₂} : Path finit ok K s s₁ → ok s₁ op → exec finit hw s₁ op = some s₂ → K s₂ →
      Path finit ok K s s₂

def Op.Proper (s : TaskStruct) (op : Op) : Prop := op.Allowed s ∧ op.ResumesNoWaiter s

theorem Op.Proper.step {finit : FpuContext} {hw : Bool} {s s' : TaskStruct} {op : Op} (ho : op.Proper s)
    (hi : TaskInv s) (e : exec finit hw s op = some s') : TaskInv s' ∧ Step finit hw s op s' := by
  obtain ⟨s₁, e₁, hi₁, hs₁⟩ := exec_spec finit hw hi ho.1 ho.2
  obtain rfl : s₁ = s' := Option.some.inj (e₁.symm.trans e)
  exact ⟨hi₁, hs₁⟩

theorem Reach.inv {finit : FpuContext} {ok : TaskStruct → Op → Prop} (hok : ∀ s op, ok s op → op.Proper s)
    {s : TaskStruct} (h : Reach finit ok s) : TaskInv s := by
  induction h with
  | boot fpu mem => exact boot_inv fpu mem
  | call _ ho e ih => exact ((hok _ _ ho).step ih e).1

/-! ## runs written out -/

instance (s : TaskStruct) (op : Op) : Decidable (op.Allowed s) := by
  cases op <;> unfold Op.Allowed <;> infer_instance

instance (s : TaskStruct) (op : Op) : Decidable (op.ResumesNoWaiter s) := by
  cases op <;> unfold Op.ResumesNoWaiter <;> infer_instance

instance (s : TaskStruct) (op : Op) : Decidable (op.Proper s) := inferInstanceAs (Decidable (_ ∧ _))

/-- the calls `ops`, one after the other, as long as they satisfy `ok` and come back -/
def execAll (finit : FpuContext) (ok : TaskStruct → Op → Prop) [∀ s op, Decidable (ok s op)] :
    List Op → TaskStruct → Option TaskStruct
  | [], s => some s
  | op :: ops, s => if ok s op then (exec finit false s op).bind (execAll finit ok ops) else none

theorem execAll_reach {finit : FpuContext} {ok : TaskStruct → Op → Prop} [∀ s op, Decidable (ok s op)]
    {ops : List Op} : ∀ {s s' : TaskStruct}, Reach finit ok s → execAll finit ok ops s = some s' →
      Reach finit ok s' := by
  induction ops with
  | nil =>
    intro s s' h e
    exact Option.some.inj e ▸ h
  | cons op ops ih =>
    intro s s' h e
    unfold execAll at e
    by_cases ho : ok s op
    · rw [if_pos ho] at e
      obtain ⟨s₁, e₁, e₂⟩ := Option.bind_eq_some_iff.mp e
      exact ih (h.call ho e₁) e₂
    · rw [if_neg ho] at e
      cases e

/-! ## a call and the tasks that wait -/

/-- a call leaves a task waiting, as long as neither task has ended -/
theorem Step.keeps_waiting {finit : FpuContext} {hw : Bool} {s s' : TaskStruct} {op : Op} (hi : TaskInv s)
    (hs : Step finit hw s op s') {t u : TaskPtr} (hwait : (s.tasks t).waitObj = some u)
    (ht : (s'.tasks t).Live) (hu : (s'.tasks u).Live) : (s'.tasks t).waitObj = some u := by
  have hslot := hi.1.toSlotInv
  obtain ⟨_, hsel, hf⟩ := hslot.waitObj t u hwait
  cases hs with
  | untouched h => rw [h.tasks, hwait]
  | @taskCreated stack stacksize processId priority i p hfree =>
    have hne : t ≠ i := fun e => hsel (e ▸ (freeTask_some hfree).2)
    show (Function.update s.tasks i _ t).waitObj = _
    rw [Function.update_of_ne hne, hwait]
  | @processCreated stack stacksize priority pageDirectory pageDirSize cr3 procData parentProcessId i parent q hfree =>
    have hne : t ≠ i := fun e => hsel (e ▸ (freeTask_some hfree).2)
    show (Function.update s.tasks i _ t).waitObj = _
    rw [Function.update_of_ne hne, hwait]
  | switched ht' h =>
    obtain ⟨_, htasks⟩ := h.tasks
    rw [htasks]
    exact hwait
  | @joined _ v t' p s' hv ht' h =>
    have hne : t ≠ s.pNow := by
      rintro rfl
      rw [hi.2.2] at hf
      cases hf
    obtain ⟨_, htasks⟩ := h.tasks
    rw [htasks]
    show (Function.update s.tasks s.pNow _ t).waitObj = _
    rw [Function.update_of_ne hne, hwait]
  | @exited _ v r s₁ s' hv hd hnow hex =>
    have hready := hd.not_ready hslot (hnow ▸ hi.2.2 : (s.tasks v).flag = .running)
    obtain ⟨flag, cpu, htasks, hflag⟩ := hex.tasks hready
    have hne : u ≠ v := ((hex.live hready u).mp hu).2
    rw [htasks]
    show (s₁.tasks t).waitObj = some u
    rw [(hd.fields t).2.2.1, hwait, if_neg fun h => hne (Option.some.inj h)]
  | @killed _ v r s₁ h h' g hv hd hnow =>
    have hne : u ≠ v := ((killed_live s₁ v r h h' g u).mp hu).2
    show (Function.update s₁.tasks v _ t).waitObj = _
    rw [Function.update_of_ne ((killed_live s₁ v r h h' g t).mp ht).2, (hd.fields t).2.2.1, hwait,
      if_neg fun h => hne (Option.some.inj h)]
  | @buried _ v g hv =>
    have hne : t ≠ v := by
      rintro rfl
      rw [(exit_of_place hv).2] at hf
      cases hf
    show (Function.update s.tasks v _ t).waitObj = _
    rw [Function.update_of_ne hne, hwait]
  | @fpu f =>
    obtain ⟨ctx, used, ts, fpu, last, e⟩ := fpuInstruction_eq finit f s
    rw [e]
    exact hwait

end Clubcos
