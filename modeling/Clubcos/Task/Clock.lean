import Clubcos.Task.History

/-!
# What a call does to the time

A tick of the timer takes one from the quantum.  A switch charges what is missing from the quantum to the process of the
task that ran, if it still has one, and begins a new quantum.

* `Handed`        what a switch charges, and whom;
* `Clock`         what a call does to the quantum and to the charges;
* `exec_timing`   **every call** does one of these, and leaves the kernel task running or READY.
-/

set_option linter.unusedVariables false
set_option linter.unusedSectionVars false

namespace Clubcos
open Word

/-! ## what a switch charges -/

/-- another task has got the processor: the quantum of `s` is charged to `payer`, and a new one begins -/
structure Handed (s s' : TaskStruct) (payer : Option ProcPtr) : Prop where
  remain : s'.remainQuantum = taskQuantum
  used : ∀ q, (s'.processes q).usedCpuTime = if payer = some q then
    u32 ((s.processes q).usedCpuTime + sub32 taskQuantum s.remainQuantum) else (s.processes q).usedCpuTime

theorem charge_used (s : TaskStruct) (q : ProcPtr) :
    ((charge s).processes q).usedCpuTime = if s.owner s.pNow = some q then
      u32 ((s.processes q).usedCpuTime + sub32 taskQuantum s.remainQuantum) else (s.processes q).usedCpuTime := by
  unfold charge TaskStruct.owner
  cases h : (s.tasks s.pNow).pProcess with
  | none =>
    simp only [h]
    exact (if_neg nofun).symm
  | some p =>
    simp only [h]
    show (Function.update s.processes p _ q).usedCpuTime = _
    by_cases e : q = p
    · rw [e, Function.update_self, if_pos rfl]
    · rw [Function.update_of_ne e, if_neg fun h => e (Option.some.inj h).symm]

theorem handed_switchTo (s : TaskStruct) (g : Heap SchedList TaskPtr) (count : TaskPriority → Nat) (t : TaskPtr)
    (hw : Bool) : Handed s (switchTo { s with nodes := g, executeCount := count } t hw) (s.owner s.pNow) := by
  constructor
  · obtain ⟨cpu, cpu', e⟩ := switchTo_eq { s with nodes := g, executeCount := count } t hw
    rw [e]
  · intro q
    have hprocs : (switchTo { s with nodes := g, executeCount := count } t hw).processes =
        (charge (putBack { s with nodes := g, executeCount := count })).processes := rfl
    rw [hprocs, charge_used, putBack_eq]
    rfl

/-- a switch leaves the tasks waiting as they are -/
theorem switchTo_waitObj (s : TaskStruct) (g : Heap SchedList TaskPtr) (count : TaskPriority → Nat) (t : TaskPtr)
    (hw : Bool) (j : TaskPtr) : ((switchTo { s with nodes := g, executeCount := count } t hw).tasks j).waitObj =
      (s.tasks j).waitObj := by
  obtain ⟨cpu, htasks⟩ := (switched_switchTo s g count t hw).1.tasks
  rw [htasks]

/-- there is a task to switch to -/
def SomeReady (s : TaskStruct) : Prop := ∃ t p, s.place t = some (.ready p)

theorem schedule_handed {s s' : TaskStruct} {b hw : Bool} (hp : Located s.nodes (fun _ => True) s.place)
    (hready : SomeReady s) (h : ckTaskSchedule_internal s hw = some (b, s')) :
    Handed s s' (s.owner s.pNow) ∧ ∀ j, (s'.tasks j).waitObj = (s.tasks j).waitObj := by
  obtain ⟨t, p, ht⟩ := hready
  rcases schedule_cases hp hw with ⟨hnone, _⟩ | ⟨u, _, count, _, e⟩
  · exact absurd ht (hnone t p)
  · cases h.symm.trans e
    exact ⟨handed_switchTo s _ count u hw, switchTo_waitObj s _ count u hw⟩

/-! ## what a call does to the time -/

def Op.isTick : Op → Bool
  | .timerInt => true
  | _ => false

/-- the slot of the process that a call creates -/
def openedBy (s : TaskStruct) (op : Op) : Option ProcPtr := (foundedBy s op).map Prod.snd

/-- Whom a switch in this call charges.  A thread that terminates itself has left its process, unless it is the main
thread. -/
def payer (s : TaskStruct) (op : Op) : Option ProcPtr :=
  if endedBy s op = some s.pNow then mainOf s s.pNow else s.owner s.pNow

inductive Clock (s : TaskStruct) (op : Op) (s' : TaskStruct) : Prop
  | stay : op.isTick = false → endedBy s op ≠ some s.pNow → s'.pNow = s.pNow → s'.remainQuantum = s.remainQuantum →
      (∀ q, (s'.processes q).usedCpuTime =
        if openedBy s op = some q then 0 else (s.processes q).usedCpuTime) → Clock s op s'
  | switched : op.isTick = false → openedBy s op = none → Handed s s' (payer s op) → Clock s op s'
  | tick : op.isTick = true → s'.pNow = s.pNow → 0 < s'.remainQuantum → s.remainQuantum = s'.remainQuantum + 1 →
      (∀ q, (s'.processes q).usedCpuTime = (s.processes q).usedCpuTime) → Clock s op s'
  | lastTick : op.isTick = true → s.remainQuantum = 1 →
      Handed { s with remainQuantum := 0 } s' (s.owner s.pNow) → Clock s op s'

/-- what a call does to the time, and that it does not make the kernel task wait -/
structure Timing (s : TaskStruct) (op : Op) (s' : TaskStruct) : Prop where
  clock : Clock s op s'
  kernel : (s.tasks kernelTask).waitObj = none → (s'.tasks kernelTask).waitObj = none

section
variable {s s' : TaskStruct} {op : Op} {hw : Bool} (hi : TaskInv s)
include hi

/-- a call that creates no process, ends no task and does not switch -/
theorem Timing.quiet (htick : op.isTick = false) (hend : endedBy s op = none) (hfound : openedBy s op = none)
    (hnow : s'.pNow = s.pNow) (hremain : s'.remainQuantum = s.remainQuantum)
    (hused : ∀ q, (s'.processes q).usedCpuTime = (s.processes q).usedCpuTime)
    (hkernel : (s'.tasks kernelTask).waitObj = (s.tasks kernelTask).waitObj) : Timing s op s' := by
  refine ⟨.stay htick ?_ hnow hremain fun q => ?_, fun h => hkernel.trans h⟩
  · rw [hend]
    exact nofun
  · rw [hused, hfound]
    exact (if_neg nofun).symm

theorem timerInt_timing (hready : SomeReady s) (hq : 1 ≤ s.remainQuantum ∧ s.remainQuantum ≤ taskQuantum)
    (h : ckTaskScheduleOnTimerInt s hw = some s') : Timing s .timerInt s' := by
  have hsub : sub32 s.remainQuantum 1 = s.remainQuantum - 1 := by
    apply sub32_of_le hq.1
    have : taskQuantum = 20 := rfl
    omega
  unfold ckTaskScheduleOnTimerInt setQuantum at h
  rw [hsub] at h
  by_cases hzero : s.remainQuantum - 1 = 0
  · rw [if_pos hzero, hzero] at h
    obtain ⟨⟨b, s₁⟩, h₁, rfl⟩ := Option.map_eq_some_iff.mp h
    obtain ⟨hhand, hwait⟩ := schedule_handed (s := { s with remainQuantum := 0 }) hi.1.places hready h₁
    exact ⟨.lastTick rfl (by omega) hhand, fun hk => (hwait kernelTask).trans hk⟩
  · rw [if_neg hzero] at h
    cases h
    have hpos : 0 < s.remainQuantum - 1 := Nat.pos_of_ne_zero hzero
    have hprev : s.remainQuantum = s.remainQuantum - 1 + 1 := by omega
    exact ⟨.tick rfl rfl hpos hprev fun q => rfl, id⟩

theorem joinOn_timing (hi' : TaskInv s') (htick : op.isTick = false) (hend : endedBy s op = none)
    (hfound : openedBy s op = none) {u : TaskPtr} (hkernel : s.pNow ≠ kernelTask) (h : joinOn s u hw = some s') :
    Timing s op s' := by
  rw [joinOn_eq hi.2.2] at h
  obtain ⟨⟨b, s₁⟩, h₁, rfl⟩ := Option.map_eq_some_iff.mp h
  have howner : (joined s u).owner (joined s u).pNow = payer s op := by
    unfold payer
    rw [hend, if_neg nofun]
    show ((joined s u).tasks s.pNow).pProcess = _
    rw [joined_self]
    rfl
  obtain ⟨g, count, ⟨_, rfl⟩ | ⟨_, t, rfl⟩⟩ := schedule_frame h₁
  -- the task that joins is WAIT and cannot go on
  · have hrun : ((joined s u).tasks s.pNow).flag = .running := hi'.2.2
    rw [joined_self] at hrun
    cases hrun
  · have hhand := handed_switchTo (joined s u) g count t hw
    rw [howner] at hhand
    refine ⟨.switched htick hfound ⟨hhand.remain, hhand.used⟩, fun hk => ?_⟩
    rw [switchTo_waitObj, joined_ne hkernel.symm]
    exact hk

theorem terminate_timing {u : TaskPtr} (hu : (s.tasks u).Live) (hk : u ≠ kernelTask) (hidle : u ≠ idleTask)
    (h : ckTaskTerminate_internal s u hw = some s') (htick : op.isTick = false) (hend : endedBy s op = some u)
    (hfound : openedBy s op = none) : Timing s op s' := by
  obtain ⟨r, s₁, hdep, hd, _⟩ := hi.1.depart hu hk hidle
  obtain ⟨f, procs, g, threads, last, hs₁, hused⟩ := depart_frame hdep
  have hremain : s₁.remainQuantum = s.remainQuantum := by rw [hs₁]
  have hused₁ : ∀ q, (s₁.processes q).usedCpuTime = (s.processes q).usedCpuTime := by
    rw [hs₁]
    exact hused
  have hkernel : (s.tasks kernelTask).waitObj = none → (s₁.tasks kernelTask).waitObj = none := by
    intro hnone
    rw [(hd.fields kernelTask).2.2.1, hnone]
    exact ite_self none
  have h : (if u = s₁.pNow then exitSelf s₁ u hw else killOther s₁ u r) = some s' := by
    rw [← h]
    unfold ckTaskTerminate_internal
    rw [hdep]
    rfl
  rw [hd.now] at h
  by_cases hnow : u = s.pNow
  · rw [if_pos hnow] at h
    obtain ⟨g', count, t, rfl⟩ := exitSelf_frame h
    have hpayer : (exiting s₁ u).owner (exiting s₁ u).pNow = payer s op := by
      unfold payer
      rw [hend, if_pos (congrArg some hnow), ← hnow, ← hd.mainOf]
      show ((exiting s₁ u).tasks s₁.pNow).pProcess = r
      rw [hd.now, ← hnow, exiting_self]
      show (s₁.tasks u).pProcess = r
      rw [(hd.fields u).2.2.2.1]
      obtain ⟨p, hp, ⟨hr, _⟩ | ⟨hr, _⟩⟩ := hd.process
      · rw [if_pos ⟨rfl, hr⟩, hr]
      · rw [if_neg fun e => by rw [hr] at e; cases e.2]
        exact hp.trans hr.symm
    have hhand := handed_switchTo (exiting s₁ u) g' count t hw
    rw [hpayer] at hhand
    have hexit : ((exiting s₁ u).tasks kernelTask) = s₁.tasks kernelTask := exiting_ne hk.symm
    refine ⟨.switched htick hfound ⟨hhand.remain, fun q => ?_⟩, fun hnone => ?_⟩
    · rw [hhand.used]
      show (if payer s op = some q then u32 ((s₁.processes q).usedCpuTime + sub32 taskQuantum s₁.remainQuantum)
        else (s₁.processes q).usedCpuTime) = _
      rw [hused₁, hremain]
    · rw [switchTo_waitObj, hexit]
      exact hkernel hnone
  · rw [if_neg hnow] at h
    obtain ⟨⟨f', g', waits, children, pages, hs'⟩, hwait⟩ := killOther_frame h
    refine ⟨.stay htick ?_ ?_ ?_ fun q => ?_, fun hnone => hwait kernelTask (hkernel hnone)⟩
    · rw [hend]
      exact fun e => hnow (Option.some.inj e)
    · rw [hs']
      exact hd.now
    · rw [hs']
      exact hremain
    · rw [hs', hfound, if_neg nofun]
      exact hused₁ q

end

/-- a new task does not take the slot of the kernel task -/
theorem newTask_kernel {s : TaskStruct} {i : TaskPtr} (hf : freeTask s = some i) (t : Task) :
    Function.update s.tasks i t kernelTask = s.tasks kernelTask := by
  refine Function.update_of_ne ?_ _ _
  rintro rfl
  exact absurd (freeTask_some hf).1 (by decide)

theorem taskCreate_timing {s : TaskStruct} (hi : TaskInv s) (stack stacksize processId : Nat)
    (priority : TaskPriority) : Timing s (.taskCreate stack stacksize processId priority)
      (ckTaskCreate s stack stacksize processId priority).2 := by
  rcases ckTaskCreate_cases s stack stacksize processId priority with e | ⟨p, i, -, hf, e⟩
  · rw [e]
    exact .quiet hi rfl rfl rfl rfl rfl (fun _ => rfl) rfl
  · rw [e]
    refine .quiet hi rfl rfl rfl rfl rfl (fun _ => rfl) ?_
    exact congrArg Task.waitObj (newTask_kernel hf _)

theorem processCreate_timing {s : TaskStruct} (hi : TaskInv s) (hfree : freeTask s ≠ none) (stack stacksize : Nat)
    (priority : TaskPriority) (pageDirectory pageDirSize cr3 : Nat) (procData : ProcessData) (parentProcessId : Nat) :
    Timing s (.processCreate stack stacksize priority pageDirectory pageDirSize cr3 procData parentProcessId)
      (ckProcessCreate s stack stacksize priority pageDirectory pageDirSize cr3 procData parentProcessId).2 := by
  obtain ⟨i, hf⟩ := Option.ne_none_iff_exists'.mp hfree
  cases hpar : csGetProcessFromId s parentProcessId with
  | none =>
    rw [ckProcessCreate_none (Or.inl hpar)]
    refine .quiet hi rfl rfl ?_ rfl rfl (fun _ => rfl) rfl
    show ((csGetProcessFromId s parentProcessId).bind _).map _ = _
    rw [hpar]
    rfl
  | some parent =>
    cases hq : freeProcess s with
    | none =>
      rw [ckProcessCreate_none (Or.inr hq)]
      refine .quiet hi rfl rfl ?_ rfl rfl (fun _ => rfl) rfl
      show ((csGetProcessFromId s parentProcessId).bind _).map _ = _
      rw [hpar, hq]
      rfl
    | some q =>
      have hopened : openedBy s (.processCreate stack stacksize priority pageDirectory pageDirSize cr3 procData
          parentProcessId) = some q := by
        show ((csGetProcessFromId s parentProcessId).bind _).map _ = _
        rw [hpar, hq]
        rfl
      rw [ckProcessCreate_eq hpar hq hf]
      refine ⟨.stay rfl nofun rfl rfl fun j => ?_, fun h => ?_⟩
      · rw [hopened]
        show (Function.update s.processes q
          (newProcess s q parent i pageDirectory pageDirSize cr3 procData) j).usedCpuTime = _
        by_cases e : j = q
        · rw [e, Function.update_self, if_pos rfl]
          rfl
        · rw [Function.update_of_ne e, if_neg fun h => e (Option.some.inj h).symm]
      · exact (congrArg Task.waitObj (newTask_kernel hf _)).trans h

section
variable {s s' : TaskStruct} {hw : Bool} (hi : TaskInv s)
include hi

theorem taskJoin_timing (hi' : TaskInv s') {taskId : Nat} (hkernel : s.pNow ≠ kernelTask)
    (h : ckTaskJoin s taskId hw = some s') : Timing s (.taskJoin taskId) s' := by
  unfold ckTaskJoin at h
  rw [if_pos (now_waits_not hi)] at h
  cases hu : csGetTaskFromId s taskId with
  | none =>
    rw [hu] at h
    cases h
    exact .quiet hi rfl rfl rfl rfl rfl (fun _ => rfl) rfl
  | some u =>
    rw [hu] at h
    simp only [if_pos (csGetTaskFromId_some hu).1.2] at h
    exact joinOn_timing hi hi' rfl rfl rfl hkernel h

theorem processJoin_timing (hi' : TaskInv s') {procId : Nat} (hkernel : s.pNow ≠ kernelTask)
    (h : ckProcessJoin s procId hw = some s') : Timing s (.processJoin procId) s' := by
  unfold ckProcessJoin at h
  rw [if_pos (now_waits_not hi)] at h
  cases hp : csGetProcessFromId s procId with
  | none =>
    rw [hp] at h
    cases h
    exact .quiet hi rfl rfl rfl rfl rfl (fun _ => rfl) rfl
  | some p =>
    rw [hp] at h
    obtain ⟨u, _, h⟩ := Option.bind_eq_some_iff.mp h
    exact joinOn_timing hi hi' rfl rfl rfl hkernel h

theorem taskTerminate_timing {taskId : Nat} {b : Bool} (ha : taskId ≠ kernelTaskId ∧ taskId ≠ idleTaskId)
    (h : ckTaskTerminate s taskId hw = some (b, s')) : Timing s (.taskTerminate taskId) s' := by
  have hended := (taskTerminate_effect hi ha h).ended
  unfold ckTaskTerminate at h
  rw [if_pos ha] at h
  cases hu : csGetTaskFromId s taskId with
  | none =>
    rw [hu] at h
    cases h
    exact .quiet hi rfl hu rfl rfl rfl (fun _ => rfl) rfl
  | some u =>
    rw [hu] at h
    obtain ⟨s₂, h₂, h⟩ := Option.bind_eq_some_iff.mp h
    cases h
    obtain ⟨hlive, hk, hidle⟩ := hended u hu
    exact terminate_timing hi hlive hk hidle h₂ rfl hu rfl

theorem processTerminate_timing {processId : Nat} {b : Bool} (ha : processId ≠ kernelProcessId)
    (h : ckProcessTerminate s processId hw = some (b, s')) : Timing s (.processTerminate processId) s' := by
  have hended := (processTerminate_effect hi ha h).ended
  have hend : endedBy s (.processTerminate processId) =
      (csGetProcessFromId s processId).bind fun p => (s.processes p).pMainThread := rfl
  unfold ckProcessTerminate at h
  rw [if_pos ha] at h
  cases hp : csGetProcessFromId s processId with
  | none =>
    rw [hp] at h hend
    cases h
    exact .quiet hi rfl hend rfl rfl rfl (fun _ => rfl) rfl
  | some p =>
    rw [hp] at h hend
    obtain ⟨u, hu, h⟩ := Option.bind_eq_some_iff.mp h
    obtain ⟨s₂, h₂, h⟩ := Option.bind_eq_some_iff.mp h
    cases h
    obtain ⟨hlive, hk, hidle⟩ := hended u (hend.trans hu)
    exact terminate_timing hi hlive hk hidle h₂ rfl (hend.trans hu) rfl

end

/-- the kernel task joins nobody -/
def Op.KernelRuns (s : TaskStruct) : Op → Prop
  | .taskJoin _ => s.pNow ≠ kernelTask
  | .processJoin _ => s.pNow ≠ kernelTask
  | _ => True

/-- the calls of a run in which the kernel and the idle task never wait -/
def Op.Timed (s : TaskStruct) (op : Op) : Prop := op.Proper s ∧ op.HasDirectory ∧ op.KernelRuns s

/-- **What every call does to the time.** -/
theorem exec_timing {finit : FpuContext} {hw : Bool} {s s' : TaskStruct} {op : Op} (hi : TaskInv s) (hi' : TaskInv s')
    (hready : SomeReady s) (hq : 1 ≤ s.remainQuantum ∧ s.remainQuantum ≤ taskQuantum) (ho : op.Timed s)
    (h : exec finit hw s op = some s') : Timing s op s' := by
  obtain ⟨⟨hallowed, hresume⟩, _, hkernel⟩ := ho
  cases op with
  | taskCreate stack stacksize processId priority =>
    cases h
    exact taskCreate_timing hi stack stacksize processId priority
  | processCreate stack stacksize priority pageDirectory pageDirSize cr3 procData parentProcessId =>
    cases h
    exact processCreate_timing hi hallowed stack stacksize priority pageDirectory pageDirSize cr3 procData
      parentProcessId
  | schedule =>
    obtain ⟨⟨b, s₁⟩, h₁, rfl⟩ := Option.map_eq_some_iff.mp h
    obtain ⟨hhand, hwait⟩ := schedule_handed hi.1.places hready h₁
    exact ⟨.switched rfl rfl hhand, fun hk => (hwait kernelTask).trans hk⟩
  | timerInt => exact timerInt_timing hi hready hq h
  | taskJoin taskId => exact taskJoin_timing hi hi' hkernel h
  | processJoin procId => exact processJoin_timing hi hi' hkernel h
  | taskTerminate taskId =>
    obtain ⟨⟨b, s₁⟩, h₁, rfl⟩ := Option.map_eq_some_iff.mp h
    exact taskTerminate_timing hi hallowed h₁
  | processTerminate processId =>
    obtain ⟨⟨b, s₁⟩, h₁, rfl⟩ := Option.map_eq_some_iff.mp h
    exact processTerminate_timing hi hallowed h₁
  | taskResume taskId =>
    rw [exec, taskResume_step hi taskId hallowed hresume] at h
    cases h
    exact .quiet hi rfl rfl rfl rfl rfl (fun _ => rfl) rfl
  | idleReap =>
    rcases idleReap_spec hi with ⟨_, e⟩ | ⟨u, g, _, e, _⟩
    · obtain rfl : s = s' := Option.some.inj (e.symm.trans h)
      exact .quiet hi rfl rfl rfl rfl rfl (fun _ => rfl) rfl
    · obtain rfl : buried s u g = s' := Option.some.inj (e.symm.trans h)
      refine .quiet hi rfl rfl rfl rfl rfl (fun _ => rfl) ?_
      show (Function.update s.tasks u { s.tasks u with selector := 0 } kernelTask).waitObj = _
      by_cases e : kernelTask = u
      · rw [← e, Function.update_self]
      · rw [Function.update_of_ne e]
  | fpu f =>
    cases h
    obtain ⟨ctx, used, ts, fpu, last, e⟩ := fpuInstruction_eq finit f s
    rw [e]
    exact .quiet hi rfl rfl rfl rfl rfl (fun _ => rfl) rfl
  | write addr value =>
    cases h
    exact .quiet hi rfl rfl rfl rfl rfl (fun _ => rfl) rfl

end Clubcos
