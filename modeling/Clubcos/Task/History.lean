import Clubcos.Lib.Handle
import Clubcos.Task.Family

/-!
# What a run has created, terminated and cleaned up

A `History` goes beside the states of a run: the tasks and processes created, with their ids, those that
have been terminated, and the processes that `csCleanupProcess` was called for.

* `startedBy`, `foundedBy`, `endedBy`, `cleanedBy`   what one call adds to it;
* `Effect`          what a call does to the slots, in these terms;
* `HistoryRun.inv`  every state of a run with its history.
-/

set_option linter.unusedVariables false
set_option linter.unusedSectionVars false

namespace Clubcos
open Word

/-! ## the events of a call -/

/-- the task that a call creates, with its id -/
def startedBy (s : TaskStruct) : Op → Option (Nat × TaskPtr)
  | .taskCreate stack stacksize processId priority =>
    (csGetProcessFromId s processId).bind fun _ => (freeTask s).map fun t =>
      ((ckTaskCreate s stack stacksize processId priority).1, t)
  | .processCreate stack stacksize priority pageDirectory pageDirSize cr3 procData parentProcessId =>
    (csGetProcessFromId s parentProcessId).bind fun _ => (freeProcess s).bind fun _ => (freeTask s).map fun t =>
      ((((ckProcessCreate s stack stacksize priority pageDirectory pageDirSize cr3 procData
        parentProcessId).2).tasks t).id, t)
  | _ => none

/-- the process that a call creates, with the id that it returns -/
def foundedBy (s : TaskStruct) : Op → Option (Nat × ProcPtr)
  | .processCreate stack stacksize priority pageDirectory pageDirSize cr3 procData parentProcessId =>
    (csGetProcessFromId s parentProcessId).bind fun _ => (freeProcess s).map fun q =>
      ((ckProcessCreate s stack stacksize priority pageDirectory pageDirSize cr3 procData parentProcessId).1, q)
  | _ => none

/-- the task that a call terminates -/
def endedBy (s : TaskStruct) : Op → Option TaskPtr
  | .taskTerminate taskId => csGetTaskFromId s taskId
  | .processTerminate processId => (csGetProcessFromId s processId).bind fun p => (s.processes p).pMainThread
  | _ => none

/-- the process whose main thread `t` is -/
def mainOf (s : TaskStruct) (t : TaskPtr) : Option ProcPtr :=
  (s.tasks t).pProcess.filter fun p => (s.processes p).pMainThread = some t

/-- the process that `csCleanupProcess` is called for: that of a main thread which another task terminates,
or that of a task which the idle task frees -/
def cleanedBy (s : TaskStruct) : Op → Option ProcPtr
  | .idleReap =>
    match popTask s .waitForExit with
    | some (some t, _) => (s.tasks t).pProcess
    | _ => none
  | op => (endedBy s op).bind fun t => if t = s.pNow then none else mainOf s t

theorem cleanedBy_of_end {s : TaskStruct} {op : Op} {o : Option TaskPtr} (h : endedBy s op = o) (hne : op ≠ .idleReap) :
    cleanedBy s op = o.bind fun t => if t = s.pNow then none else mainOf s t := by
  rw [← h]
  cases op with
  | idleReap => exact absurd rfl hne
  | _ => rfl

theorem mainOf_some {s : TaskStruct} {t : TaskPtr} {p : ProcPtr} :
    mainOf s t = some p ↔ (s.tasks t).pProcess = some p ∧ (s.processes p).pMainThread = some t := by
  rw [mainOf, Option.filter_eq_some_iff]
  exact and_congr_right fun _ => decide_eq_true_iff

/-- the process that a terminated task leaves to be cleaned up -/
theorem Departed.mainOf {s s₁ : TaskStruct} {u : TaskPtr} {r : Option ProcPtr} (hd : Departed s u r s₁) :
    r = Clubcos.mainOf s u := by
  obtain ⟨p, hp, ⟨hr, hm, _⟩ | ⟨hr, hm, _⟩⟩ := hd.process
  · rw [hr]
    refine (Option.eq_none_iff_forall_ne_some.mpr fun q hq => ?_).symm
    obtain ⟨h1, h2⟩ := mainOf_some.mp hq
    exact hm (Option.some.inj (hp.symm.trans h1) ▸ h2)
  · rw [hr, mainOf_some.mpr ⟨hp, hm⟩]

/-! ## the id counters -/

def TaskStruct.masks (s : TaskStruct) : Nat × Nat := (s.taskIdMask, s.processIdMask)

theorem switchTo_masks (s : TaskStruct) (t : TaskPtr) (hw : Bool) : (switchTo s t hw).masks = s.masks := by
  obtain ⟨cpu, cpu', e⟩ := switchTo_eq s t hw
  rw [e]
  rfl

theorem schedule_masks {s s' : TaskStruct} {b hw : Bool} (h : ckTaskSchedule_internal s hw = some (b, s')) :
    s'.masks = s.masks := by
  obtain ⟨g, count, ⟨_, rfl⟩ | ⟨_, t, rfl⟩⟩ := schedule_frame h
  · rfl
  · exact switchTo_masks { s with nodes := g, executeCount := count } t hw

theorem joinOn_masks {s s' : TaskStruct} {t : TaskPtr} {hw : Bool} (hr : (s.tasks s.pNow).flag = .running)
    (h : joinOn s t hw = some s') : s'.masks = s.masks := by
  rw [joinOn_eq hr] at h
  obtain ⟨⟨b, s₁⟩, h₁, rfl⟩ := Option.map_eq_some_iff.mp h
  exact schedule_masks (s := joined s t) h₁

theorem terminate_masks {s s' : TaskStruct} {t : TaskPtr} {hw : Bool}
    (h : ckTaskTerminate_internal s t hw = some s') : s'.masks = s.masks := by
  obtain ⟨⟨r, s₁⟩, h₁, h⟩ := Option.bind_eq_some_iff.mp h
  have hdep : s₁.masks = s.masks := by
    obtain ⟨f, procs, g, threads, last, rfl, _⟩ := depart_frame h₁
    rfl
  refine Eq.trans ?_ hdep
  have h : (if t = s₁.pNow then exitSelf s₁ t hw else killOther s₁ t r) = some s' := h
  split at h
  · obtain ⟨g, count, u, rfl⟩ := exitSelf_frame h
    exact switchTo_masks { exiting s₁ t with nodes := g, executeCount := count } u hw
  · obtain ⟨⟨f, g, waits, children, pages, rfl⟩, _⟩ := killOther_frame h
    rfl

/-! ## the effect of a call -/

/-- the process that loses its main thread in a call -/
def closedBy (s : TaskStruct) (op : Op) : Option ProcPtr := (endedBy s op).bind (mainOf s)

/-- **What a call does to the slots of tasks and processes**, in terms of its events. -/
structure Effect (s : TaskStruct) (op : Op) (s' : TaskStruct) : Prop where
  live : ∀ t, (s'.tasks t).Live ↔ ((s.tasks t).Live ∧ endedBy s op ≠ some t) ∨ ∃ i, startedBy s op = some (i, t)
  taskId : ∀ t, (∀ i, startedBy s op ≠ some (i, t)) → (s'.tasks t).id = (s.tasks t).id
  started : ∀ i t, startedBy s op = some (i, t) →
    (s.tasks t).selector = 0 ∧ 2 ≤ t.val ∧ i = s.taskIdMask ||| t.val ∧ (s'.tasks t).id = i
  taskMask : s'.taskIdMask = if startedBy s op = none then s.taskIdMask else u32 (s.taskIdMask + taskIdMaskUnit)
  ended : ∀ t, endedBy s op = some t → (s.tasks t).Live ∧ t ≠ kernelTask ∧ t ≠ idleTask
  exiting : ∀ t, (s'.tasks t).Exiting → (s.tasks t).Exiting ∨ endedBy s op = some t
  owner : ∀ t, (∀ i, startedBy s op ≠ some (i, t)) →
    (s'.tasks t).pProcess = if endedBy s op = some t then mainOf s t else (s.tasks t).pProcess
  ownerNew : ∀ i t, startedBy s op = some (i, t) → ∃ p, (s'.tasks t).pProcess = some p ∧
    ((∃ j, foundedBy s op = some (j, p)) ∨ foundedBy s op = none ∧ (s.processes p).Valid)
  founded : ∀ j q, foundedBy s op = some (j, q) → (s.processes q).pageDirectory = 0 ∧
    j = s.processIdMask ||| q.val ∧ (s'.processes q).id = j ∧
    ∃ i t, startedBy s op = some (i, t) ∧ (s'.processes q).pMainThread = some t
  directory : op.HasDirectory → ∀ j q, foundedBy s op = some (j, q) → (s'.processes q).pageDirectory ≠ 0
  processMask : s'.processIdMask =
    if foundedBy s op = none then s.processIdMask else u32 (s.processIdMask + processIdMaskUnit)
  process : ∀ q, (∀ j, foundedBy s op ≠ some (j, q)) →
    (s'.processes q).pageDirectory = (s.processes q).pageDirectory ∧ (s'.processes q).id = (s.processes q).id ∧
    (s'.processes q).pMainThread = if closedBy s op = some q then none else (s.processes q).pMainThread
  cleaned : ∀ p, cleanedBy s op = some p →
    closedBy s op = some p ∨ ∃ t, (s.tasks t).Exiting ∧ (s.tasks t).pProcess = some p

/-- nothing is created and nothing ends -/
structure Calm (s s' : TaskStruct) : Prop where
  live : ∀ t, (s'.tasks t).Live ↔ (s.tasks t).Live
  exiting : ∀ t, (s'.tasks t).Exiting → (s.tasks t).Exiting
  task : ∀ t, (s'.tasks t).id = (s.tasks t).id ∧ (s'.tasks t).pProcess = (s.tasks t).pProcess
  process : ∀ q, (s'.processes q).pageDirectory = (s.processes q).pageDirectory ∧
    (s'.processes q).id = (s.processes q).id ∧ (s'.processes q).pMainThread = (s.processes q).pMainThread
  masks : s'.masks = s.masks

theorem Calm.effect {s s' : TaskStruct} {op : Op} (h : Calm s s') (hstart : startedBy s op = none)
    (hfound : foundedBy s op = none) (hend : endedBy s op = none)
    (hclean : ∀ p, cleanedBy s op = some p → ∃ t, (s.tasks t).Exiting ∧ (s.tasks t).pProcess = some p) :
    Effect s op s' where
  live t := by
    rw [h.live, hend, hstart]
    exact ⟨fun ht => Or.inl ⟨ht, nofun⟩, fun ht => ht.elim (fun ht => ht.1) nofun⟩
  taskId t _ := (h.task t).1
  started i t ht := by
    rw [hstart] at ht
    cases ht
  taskMask := by
    rw [hstart, if_pos rfl]
    exact congrArg Prod.fst h.masks
  ended t ht := by
    rw [hend] at ht
    cases ht
  exiting t ht := Or.inl (h.exiting t ht)
  owner t _ := by
    rw [hend, if_neg nofun]
    exact (h.task t).2
  ownerNew i t ht := by
    rw [hstart] at ht
    cases ht
  founded j q hq := by
    rw [hfound] at hq
    cases hq
  directory _ j q hq := by
    rw [hfound] at hq
    cases hq
  processMask := by
    rw [hfound, if_pos rfl]
    exact congrArg Prod.snd h.masks
  process q _ := by
    obtain ⟨h1, h2, h3⟩ := h.process q
    rw [closedBy, hend]
    exact ⟨h1, h2, h3.trans (if_neg nofun).symm⟩
  cleaned p hp := Or.inr (hclean p hp)

theorem Untouched.calm {s s' : TaskStruct} (h : Untouched s s') (hm : s'.masks = s.masks) : Calm s s' := by
  exact {
    live t := by
      rw [h.tasks]
    exiting t := by
      rw [h.tasks]
      exact id
    task t := by
      rw [h.tasks]
      exact ⟨rfl, rfl⟩
    process q := by
      rw [h.processes]
      exact ⟨rfl, rfl, rfl⟩
    masks := hm
  }

theorem Switched.calm {s s' : TaskStruct} {t : TaskPtr} {p : TaskPriority} {hw : Bool}
    (ht : s.place t = some (.ready p)) (hs : Switched s t hw s') (hm : s'.masks = s.masks) : Calm s s' := by
  obtain ⟨cpu, htasks⟩ := hs.tasks
  obtain ⟨cpu', hprocs⟩ := hs.processes
  refine ⟨hs.live ht, fun j hj => ?_, fun j => ?_, fun q => ?_, hm⟩
  · obtain ⟨hsel, hexit⟩ := hs.exit_iff ht j
    exact ⟨hsel ▸ hj.1, hexit.mp hj.2⟩
  · rw [htasks]
    exact ⟨rfl, rfl⟩
  · rw [hprocs]
    exact ⟨rfl, rfl, rfl⟩

theorem Calm.trans {s₁ s₂ s₃ : TaskStruct} (h₁ : Calm s₁ s₂) (h₂ : Calm s₂ s₃) : Calm s₁ s₃ where
  live t := (h₂.live t).trans (h₁.live t)
  exiting t ht := h₁.exiting t (h₂.exiting t ht)
  task t := ⟨(h₂.task t).1.trans (h₁.task t).1, (h₂.task t).2.trans (h₁.task t).2⟩
  process q := ⟨(h₂.process q).1.trans (h₁.process q).1, (h₂.process q).2.1.trans (h₁.process q).2.1,
    (h₂.process q).2.2.trans (h₁.process q).2.2⟩
  masks := h₂.masks.trans h₁.masks

theorem calm_joined {s : TaskStruct} (hi : TaskInv s) (u : TaskPtr) : Calm s (joined s u) := by
  refine ⟨joined_live hi.2 u, fun j hj => ?_, fun j => ?_, fun q => ⟨rfl, rfl, rfl⟩, rfl⟩
  · by_cases e : j = s.pNow
    · rw [e, joined_self] at hj
      cases hj.2
    · exact joined_ne e ▸ hj
  · by_cases e : j = s.pNow
    · rw [e, joined_self]
      exact ⟨rfl, rfl⟩
    · rw [joined_ne e]
      exact ⟨rfl, rfl⟩

/-- a new task, in a process that is there or as the main thread of a new one -/
theorem Effect.created {s s' : TaskStruct} {op : Op} {i : TaskPtr} {stack stacksize : Nat} {p : ProcPtr}
    {priority : TaskPriority} (hfree : 2 ≤ i.val ∧ (s.tasks i).selector = 0)
    (hstart : startedBy s op = some (s.taskIdMask ||| i.val, i)) (hend : endedBy s op = none)
    (hclean : cleanedBy s op = none)
    (htasks : s'.tasks = Function.update s.tasks i (newTask s i stack stacksize p priority))
    (hmask : s'.taskIdMask = u32 (s.taskIdMask + taskIdMaskUnit))
    (hprocs : (foundedBy s op = none ∧ s'.processes = s.processes ∧ s'.processIdMask = s.processIdMask ∧
        (s.processes p).Valid) ∨
      ∃ np : Process, foundedBy s op = some (s.processIdMask ||| p.val, p) ∧ (s.processes p).pageDirectory = 0 ∧
        s'.processes = Function.update s.processes p np ∧ np.id = s.processIdMask ||| p.val ∧
        np.pMainThread = some i ∧ (op.HasDirectory → np.pageDirectory ≠ 0) ∧
        s'.processIdMask = u32 (s.processIdMask + processIdMaskUnit)) : Effect s op s' := by
  have hself : s'.tasks i = newTask s i stack stacksize p priority := by rw [htasks, Function.update_self]
  have hother : ∀ j, j ≠ i → s'.tasks j = s.tasks j := fun j e => by rw [htasks, Function.update_of_ne e]
  have hnew : ∀ j, (∃ n, startedBy s op = some (n, j)) ↔ j = i := by
    intro j
    rw [hstart]
    exact ⟨fun ⟨n, h⟩ => (congrArg Prod.snd (Option.some.inj h)).symm, fun e => ⟨_, by rw [e]⟩⟩
  have hold : ∀ j, (∀ n, startedBy s op ≠ some (n, j)) → j ≠ i := fun j h e =>
    (hnew j).mpr e |>.elim fun n hn => h n hn
  have hsel : (s'.tasks i).selector ≠ 0 := by
    rw [hself]
    exact Nat.succ_ne_zero _ ∘ fun h => (Nat.add_comm _ _).trans h
  have hfl : (s'.tasks i).flag = .ready := by
    rw [hself]
    rfl
  have hclosed : closedBy s op = none := by
    rw [closedBy, hend]
    rfl
  exact {
    live j := by
      rw [hnew, hend]
      by_cases e : j = i
      · rw [e]
        exact iff_of_true ⟨hsel, by rw [hfl]; nofun⟩ (Or.inr rfl)
      · rw [hother j e]
        exact ⟨fun h => Or.inl ⟨h, nofun⟩, fun h => (h.resolve_right e).1⟩
    taskId j h := by
      rw [hother j (hold j h)]
    started n j h := by
      rw [hstart] at h
      cases h
      exact ⟨hfree.2, hfree.1, rfl, by rw [hself]; rfl⟩
    taskMask := by
      rw [hstart, if_neg (Option.some_ne_none _), hmask]
    ended j h := by
      rw [hend] at h
      cases h
    exiting j h := by
      have e : j ≠ i := by
        rintro rfl
        rw [Task.Exiting, hfl] at h
        cases h.2
      exact Or.inl (hother j e ▸ h)
    owner j h := by
      rw [hother j (hold j h), hend, if_neg (Option.some_ne_none _).symm]
    ownerNew n j h := by
      obtain rfl := (hnew j).mp ⟨n, h⟩
      refine ⟨p, by rw [hself]; rfl, ?_⟩
      rcases hprocs with ⟨hf, _, _, hv⟩ | ⟨np, hf, _⟩
      · exact Or.inr ⟨hf, hv⟩
      · exact Or.inl ⟨_, hf⟩
    founded n q h := by
      rcases hprocs with ⟨hf, _⟩ | ⟨np, hf, hdir, hp, hid, hm, _⟩
      · rw [hf] at h
        cases h
      · rw [hf] at h
        cases h
        rw [hp, Function.update_self]
        exact ⟨hdir, rfl, hid, _, i, hstart, hm⟩
    directory hd n q h := by
      rcases hprocs with ⟨hf, _⟩ | ⟨np, hf, _, hp, _, _, hnp, _⟩
      · rw [hf] at h
        cases h
      · rw [hf] at h
        cases h
        rw [hp, Function.update_self]
        exact hnp hd
    processMask := by
      rcases hprocs with ⟨hf, _, hm, _⟩ | ⟨np, hf, _, _, _, _, _, hm⟩
      · rw [hf, if_pos rfl, hm]
      · rw [hf, if_neg (Option.some_ne_none _), hm]
    process q h := by
      rw [hclosed, if_neg (Option.some_ne_none _).symm]
      rcases hprocs with ⟨_, hp, _⟩ | ⟨np, hf, _, hp, _⟩
      · rw [hp]
        exact ⟨rfl, rfl, rfl⟩
      · have e : q ≠ p := fun e => h _ (e ▸ hf)
        rw [hp, Function.update_of_ne e]
        exact ⟨rfl, rfl, rfl⟩
    cleaned q h := by
      rw [hclean] at h
      cases h
  }

theorem taskCreate_effect {s : TaskStruct} (stack stacksize processId : Nat) (priority : TaskPriority) :
    Effect s (.taskCreate stack stacksize processId priority)
      (ckTaskCreate s stack stacksize processId priority).2 := by
  have hcalm : Calm s s := (Untouched.refl s).calm rfl
  cases hp : csGetProcessFromId s processId with
  | none =>
    rw [ckTaskCreate_unknown hp]
    have hstart : startedBy s (.taskCreate stack stacksize processId priority) = none := by
      show (csGetProcessFromId s processId).bind _ = _
      rw [hp]
      rfl
    exact hcalm.effect hstart rfl rfl nofun
  | some p =>
    cases hf : freeTask s with
    | none =>
      rw [ckTaskCreate_noSlot hf hp]
      have hstart : startedBy s (.taskCreate stack stacksize processId priority) = none := by
        show (csGetProcessFromId s processId).bind _ = _
        rw [hp, hf]
        rfl
      exact hcalm.effect hstart rfl rfl nofun
    | some i =>
      obtain ⟨h1, _, h2⟩ := csGetProcessFromId_some hp
      have hstart : startedBy s (.taskCreate stack stacksize processId priority) =
          some (s.taskIdMask ||| i.val, i) := by
        show (csGetProcessFromId s processId).bind _ = _
        rw [hp, ckTaskCreate_free hf hp, hf]
        rfl
      rw [ckTaskCreate_free hf hp]
      exact Effect.created (freeTask_some hf) hstart rfl rfl rfl rfl (Or.inl ⟨rfl, rfl, rfl, h1, h2⟩)

theorem processCreate_effect {s : TaskStruct} (hfree : freeTask s ≠ none) (stack stacksize : Nat)
    (priority : TaskPriority) (pageDirectory pageDirSize cr3 : Nat) (procData : ProcessData) (parentProcessId : Nat) :
    Effect s (.processCreate stack stacksize priority pageDirectory pageDirSize cr3 procData parentProcessId)
      (ckProcessCreate s stack stacksize priority pageDirectory pageDirSize cr3 procData parentProcessId).2 := by
  obtain ⟨i, hf⟩ := Option.ne_none_iff_exists'.mp hfree
  have hcalm : Calm s s := (Untouched.refl s).calm rfl
  cases hpar : csGetProcessFromId s parentProcessId with
  | none =>
    rw [ckProcessCreate_none (Or.inl hpar)]
    refine hcalm.effect ?_ ?_ rfl nofun <;> show (csGetProcessFromId s parentProcessId).bind _ = _ <;> rw [hpar] <;> rfl
  | some parent =>
    cases hq : freeProcess s with
    | none =>
      rw [ckProcessCreate_none (Or.inr hq)]
      refine hcalm.effect ?_ ?_ rfl nofun <;> show (csGetProcessFromId s parentProcessId).bind _ = _ <;>
        rw [hpar, hq] <;> rfl
    | some q =>
      have e := ckProcessCreate_eq hpar hq hf stack stacksize priority pageDirectory pageDirSize cr3 procData
      have hstart : startedBy s (.processCreate stack stacksize priority pageDirectory pageDirSize cr3 procData
          parentProcessId) = some (s.taskIdMask ||| i.val, i) := by
        show (csGetProcessFromId s parentProcessId).bind _ = _
        rw [hpar, hq, e, hf]
        show some ((Function.update s.tasks i (newTask s i stack stacksize q priority) i).id, i) = _
        rw [Function.update_self]
        rfl
      have hfound : foundedBy s (.processCreate stack stacksize priority pageDirectory pageDirSize cr3 procData
          parentProcessId) = some (s.processIdMask ||| q.val, q) := by
        show (csGetProcessFromId s parentProcessId).bind _ = _
        rw [hpar, hq, e]
        rfl
      rw [e]
      exact Effect.created (freeTask_some hf) hstart rfl rfl rfl rfl
        (Or.inr ⟨_, hfound, freeProcess_some hq, rfl, rfl, rfl, id, rfl⟩)

/-- what is left of the slots after the task `u` has left everything it had to do with others -/
structure Ended (s₁ : TaskStruct) (u : TaskPtr) (s' : TaskStruct) : Prop where
  live : ∀ t, (s'.tasks t).Live ↔ (s₁.tasks t).Live ∧ t ≠ u
  exiting : ∀ t, (s'.tasks t).Exiting → (s₁.tasks t).Exiting ∨ t = u
  task : ∀ t, (s'.tasks t).id = (s₁.tasks t).id ∧ (s'.tasks t).pProcess = (s₁.tasks t).pProcess
  process : ∀ q, (s'.processes q).pageDirectory = (s₁.processes q).pageDirectory ∧
    (s'.processes q).id = (s₁.processes q).id ∧ (s'.processes q).pMainThread = (s₁.processes q).pMainThread

theorem Exited.ended {s₁ s' : TaskStruct} {u : TaskPtr} {hw : Bool} (h : Exited s₁ u hw s')
    (hu : (s₁.tasks u).flag ≠ .ready) : Ended s₁ u s' := by
  have hlive := h.live hu
  obtain ⟨flag, cpu, htasks, hflag⟩ := h.tasks hu
  obtain ⟨t, p, _, hs⟩ := h
  obtain ⟨cpu', hprocs⟩ := hs.processes
  exact {
    live j := hlive j
    exiting j hj := by
      rw [htasks] at hj
      exact ((hflag j).mp hj.2).symm.imp_left fun hf => ⟨hj.1, hf⟩
    task j := by
      rw [htasks]
      exact ⟨rfl, rfl⟩
    process q := by
      rw [hprocs]
      exact ⟨rfl, rfl, rfl⟩
  }

theorem ended_killed (s₁ : TaskStruct) (u : TaskPtr) (r : Option ProcPtr) (h : Heap SchedList TaskPtr)
    (h' : Heap TaskPtr TaskPtr) (g : Pages) : Ended s₁ u (killed s₁ u r h h' g) := by
  refine ⟨killed_live s₁ u r h h' g, fun j hj => ?_, fun j => ?_, fun q => ⟨rfl, rfl, rfl⟩⟩
  · by_cases e : j = u
    · exact Or.inr e
    · exact Or.inl (killed_ne e ▸ hj)
  · by_cases e : j = u
    · rw [e, killed_self]
      exact ⟨rfl, rfl⟩
    · rw [killed_ne e]
      exact ⟨rfl, rfl⟩

/-- the task `u` ends -/
theorem Effect.terminated {s s₁ s' : TaskStruct} {op : Op} {u : TaskPtr} {r : Option ProcPtr} (hi : TaskInv s)
    (hu : (s.tasks u).Live) (hk : u ≠ kernelTask) (hidle : u ≠ idleTask) (hd : Departed s u r s₁)
    (he : Ended s₁ u s') (hm : s'.masks = s.masks) (hend : endedBy s op = some u) (hstart : startedBy s op = none)
    (hfound : foundedBy s op = none) (hclean : cleanedBy s op = if u = s.pNow then none else mainOf s u) :
    Effect s op s' := by
  have hclosed : closedBy s op = mainOf s u := by
    rw [closedBy, hend]
    rfl
  have hr := hd.mainOf
  have hslot := hi.1.toSlotInv
  have hprocess : ∀ q, (s₁.processes q).pageDirectory = (s.processes q).pageDirectory ∧
      (s₁.processes q).id = (s.processes q).id ∧
      (s₁.processes q).pMainThread = if r = some q then none else (s.processes q).pMainThread := by
    intro q
    obtain ⟨p, _, ⟨h, _, e, _⟩ | ⟨h, _, e, _⟩⟩ := hd.process
    · rw [e, h]
      exact ⟨rfl, rfl, (if_neg nofun).symm⟩
    · rw [e, h]
      by_cases eq : q = p
      · rw [eq, Function.update_self]
        exact ⟨rfl, rfl, (if_pos rfl).symm⟩
      · rw [Function.update_of_ne eq]
        exact ⟨rfl, rfl, (if_neg fun h => eq (Option.some.inj h).symm).symm⟩
  exact {
    live t := by
      rw [hend, hstart, he.live t, hd.live_iff hslot t]
      exact ⟨fun h => Or.inl ⟨h.1, fun e => h.2 (Option.some.inj e).symm⟩,
        fun h => h.elim (fun h => ⟨h.1, fun e => h.2 (congrArg some e.symm)⟩) fun ⟨_, h⟩ => by cases h⟩
    taskId t _ := by
      rw [(he.task t).1, (hd.fields t).2.2.2.2]
    started i t h := by
      rw [hstart] at h
      cases h
    taskMask := by
      rw [hstart, if_pos rfl]
      exact congrArg Prod.fst hm
    ended t h := by
      rw [hend] at h
      cases h
      exact ⟨hu, hk, hidle⟩
    exiting t h := by
      rw [hend]
      obtain ⟨hsel, hexit⟩ := hd.exit_iff hslot t
      exact (he.exiting t h).imp (fun h => ⟨hsel ▸ h.1, hexit.mp h.2⟩) fun e => congrArg some e.symm
    owner t _ := by
      rw [(he.task t).2, (hd.fields t).2.2.2.1, hend]
      obtain ⟨p, hp, ⟨h, _⟩ | ⟨h, _⟩⟩ := hd.process
      · by_cases e : u = t
        · rw [if_pos ⟨e.symm, h⟩, if_pos (congrArg some e), ← e, ← hr, h]
        · rw [if_neg fun h => e h.1.symm, if_neg fun h => e (Option.some.inj h)]
      · rw [if_neg fun hn => by rw [h] at hn; cases hn.2]
        by_cases e : u = t
        · rw [if_pos (congrArg some e), ← e, ← hr, h, hp]
        · rw [if_neg fun h => e (Option.some.inj h)]
    ownerNew i t h := by
      rw [hstart] at h
      cases h
    founded j q h := by
      rw [hfound] at h
      cases h
    directory _ j q h := by
      rw [hfound] at h
      cases h
    processMask := by
      rw [hfound, if_pos rfl]
      exact congrArg Prod.snd hm
    process q _ := by
      obtain ⟨h1, h2, h3⟩ := he.process q
      obtain ⟨h4, h5, h6⟩ := hprocess q
      rw [hclosed, ← hr]
      exact ⟨h1.trans h4, h2.trans h5, h3.trans h6⟩
    cleaned p h := by
      rw [hclean] at h
      by_cases e : u = s.pNow
      · rw [if_pos e] at h
        cases h
      · rw [if_neg e] at h
        exact Or.inl (hclosed.trans h)
  }

theorem terminate_effect {s s' : TaskStruct} {op : Op} {u : TaskPtr} {hw : Bool} (hi : TaskInv s)
    (hu : (s.tasks u).Live) (hk : u ≠ kernelTask) (hidle : u ≠ idleTask)
    (h : ckTaskTerminate_internal s u hw = some s') (hend : endedBy s op = some u) (hstart : startedBy s op = none)
    (hfound : foundedBy s op = none) (hclean : cleanedBy s op = if u = s.pNow then none else mainOf s u) :
    Effect s op s' := by
  have hm := terminate_masks h
  obtain ⟨r, s₁, s₂, hd, e, _, hcase⟩ := terminate_spec hi hu hk hidle hw
  obtain rfl : s₂ = s' := Option.some.inj (e.symm.trans h)
  refine Effect.terminated hi hu hk hidle hd ?_ hm hend hstart hfound hclean
  rcases hcase with ⟨hnow, hex⟩ | ⟨_, k, k', g, rfl⟩
  · exact hex.ended (hd.not_ready hi.1.toSlotInv (hnow ▸ hi.2.2))
  · exact ended_killed s₁ u r k k' g

theorem schedule_calm {s s' : TaskStruct} {b hw : Bool} (hi : TaskInv s)
    (h : ckTaskSchedule_internal s hw = some (b, s')) : Calm s s' := by
  have hm := schedule_masks h
  rcases schedule_spec hi hw with ⟨count, e⟩ | ⟨t, p, s₂, ht, e, hs, _⟩
  · cases h.symm.trans e
    exact (Untouched.counters s count s.remainQuantum s.pages).calm rfl
  · cases h.symm.trans e
    exact hs.calm ht hm

theorem setQuantum_calm {s s' : TaskStruct} {n : Nat} {hw : Bool} (hi : TaskInv s)
    (h : setQuantum s n hw = some s') : Calm s s' := by
  have hu : Untouched s { s with remainQuantum := n } := Untouched.counters s s.executeCount n s.pages
  refine (hu.calm rfl).trans ?_
  unfold setQuantum at h
  split at h
  · obtain ⟨⟨b, s₁⟩, h₁, rfl⟩ := Option.map_eq_some_iff.mp h
    exact schedule_calm (hu.inv hi) h₁
  · obtain rfl := Option.some.inj h
    exact (Untouched.refl _).calm rfl

theorem timerInt_calm {s s' : TaskStruct} {hw : Bool} (hi : TaskInv s)
    (h : ckTaskScheduleOnTimerInt s hw = some s') : Calm s s' := by
  unfold ckTaskScheduleOnTimerInt at h
  exact setQuantum_calm hi h

theorem joinOn_calm {s s' : TaskStruct} {u : TaskPtr} {hw : Bool} (hi : TaskInv s) (hu : (s.tasks u).Live)
    (hidle : s.pNow ≠ idleTask) (h : joinOn s u hw = some s') : Calm s s' := by
  have hm := joinOn_masks hi.2.2 h
  obtain ⟨t, p, s₁, ht, e, hs, _⟩ := joinOn_spec hi hu hidle hw
  obtain rfl : s₁ = s' := Option.some.inj (e.symm.trans h)
  exact (calm_joined hi u).trans (hs.calm ht hm)

/-- the idle task cleans up the process of a task that waits to be freed -/
theorem cleanedBy_idleReap {s : TaskStruct} (hi : TaskInv s) {p : ProcPtr} (h : cleanedBy s .idleReap = some p) :
    ∃ t, (s.tasks t).Exiting ∧ (s.tasks t).pProcess = some p := by
  unfold cleanedBy popTask at h
  rcases hi.1.places.pop (l := .waitForExit) trivial with ⟨_, e⟩ | ⟨t, ht, e⟩
  · rw [e] at h
    cases h
  · rw [e] at h
    exact ⟨t, exit_of_place ht, h⟩

theorem idleReap_effect {s s' : TaskStruct} (hi : TaskInv s) (h : idleReap s = some s') : Effect s .idleReap s' := by
  refine Calm.effect ?_ rfl rfl rfl fun p hp => cleanedBy_idleReap hi hp
  rcases idleReap_spec hi with ⟨_, e⟩ | ⟨u, g, hu, e, _⟩
  · obtain rfl : s = s' := Option.some.inj (e.symm.trans h)
    exact (Untouched.refl s).calm rfl
  · obtain rfl : buried s u g = s' := Option.some.inj (e.symm.trans h)
    have hexit := exit_of_place hu
    refine ⟨fun j => ?_, fun j hj => ?_, fun j => ?_, fun q => ⟨rfl, rfl, rfl⟩, rfl⟩ <;> by_cases e : j = u
    · rw [e, buried_self]
      exact iff_of_false (fun h => h.1 rfl) (fun h => h.2 hexit.2)
    · rw [buried_ne e]
    · rw [e, buried_self] at hj
      exact absurd rfl hj.1
    · exact buried_ne e ▸ hj
    · rw [e, buried_self]
      exact ⟨rfl, rfl⟩
    · rw [buried_ne e]
      exact ⟨rfl, rfl⟩

theorem taskJoin_calm {s s' : TaskStruct} {taskId : Nat} {hw : Bool} (hi : TaskInv s) (hidle : s.pNow ≠ idleTask)
    (h : ckTaskJoin s taskId hw = some s') : Calm s s' := by
  unfold ckTaskJoin at h
  rw [if_pos (now_waits_not hi)] at h
  cases hu : csGetTaskFromId s taskId with
  | none =>
    rw [hu] at h
    cases h
    exact (Untouched.refl s).calm rfl
  | some u =>
    rw [hu] at h
    have hlive := (csGetTaskFromId_some hu).1
    simp only [if_pos hlive.2] at h
    exact joinOn_calm hi hlive hidle h

theorem processJoin_calm {s s' : TaskStruct} {procId : Nat} {hw : Bool} (hi : TaskInv s) (hidle : s.pNow ≠ idleTask)
    (h : ckProcessJoin s procId hw = some s') : Calm s s' := by
  unfold ckProcessJoin at h
  rw [if_pos (now_waits_not hi)] at h
  cases hp : csGetProcessFromId s procId with
  | none =>
    rw [hp] at h
    cases h
    exact (Untouched.refl s).calm rfl
  | some p =>
    rw [hp] at h
    obtain ⟨u, hu, h⟩ := Option.bind_eq_some_iff.mp h
    exact joinOn_calm hi (hi.1.main p u hu).1 hidle h

theorem taskTerminate_effect {s s' : TaskStruct} {taskId : Nat} {b hw : Bool} (hi : TaskInv s)
    (ha : taskId ≠ kernelTaskId ∧ taskId ≠ idleTaskId) (h : ckTaskTerminate s taskId hw = some (b, s')) :
    Effect s (.taskTerminate taskId) s' := by
  unfold ckTaskTerminate at h
  rw [if_pos ha] at h
  cases hu : csGetTaskFromId s taskId with
  | none =>
    rw [hu] at h
    cases h
    have hend : endedBy s (.taskTerminate taskId) = none := hu
    refine ((Untouched.refl s).calm rfl).effect rfl rfl hend fun p hp => ?_
    rw [cleanedBy_of_end hend nofun] at hp
    cases hp
  | some u =>
    rw [hu] at h
    obtain ⟨s₂, h₂, h⟩ := Option.bind_eq_some_iff.mp h
    cases h
    obtain ⟨hlive, hid⟩ := csGetTaskFromId_some hu
    have hend : endedBy s (.taskTerminate taskId) = some u := hu
    refine terminate_effect hi hlive ?_ ?_ h₂ hend rfl rfl ?_
    · exact fun e => ha.1 (hid.symm.trans (e ▸ hi.1.ids.1))
    · exact fun e => ha.2 (hid.symm.trans (e ▸ hi.1.ids.2.1))
    · rw [cleanedBy_of_end hend nofun]
      rfl

theorem processTerminate_effect {s s' : TaskStruct} {processId : Nat} {b hw : Bool} (hi : TaskInv s)
    (ha : processId ≠ kernelProcessId) (h : ckProcessTerminate s processId hw = some (b, s')) :
    Effect s (.processTerminate processId) s' := by
  unfold ckProcessTerminate at h
  rw [if_pos ha] at h
  cases hp : csGetProcessFromId s processId with
  | none =>
    rw [hp] at h
    cases h
    have hend : endedBy s (.processTerminate processId) = none := by
      rw [endedBy, hp]
      rfl
    refine ((Untouched.refl s).calm rfl).effect rfl rfl hend fun p hp => ?_
    rw [cleanedBy_of_end hend nofun] at hp
    cases hp
  | some p =>
    rw [hp] at h
    obtain ⟨u, hu, h⟩ := Option.bind_eq_some_iff.mp h
    obtain ⟨s₂, h₂, h⟩ := Option.bind_eq_some_iff.mp h
    cases h
    obtain ⟨_, hid, _⟩ := csGetProcessFromId_some hp
    obtain ⟨hlive, hproc⟩ := hi.1.main p u hu
    have hp0 : p ≠ kernelProcess := fun e => ha (hid.symm.trans (e ▸ hi.1.ids.2.2))
    have hend : endedBy s (.processTerminate processId) = some u := by
      rw [endedBy, hp]
      exact hu
    refine terminate_effect hi hlive ?_ ?_ h₂ hend rfl rfl ?_
    · exact fun e => hp0 (Option.some.inj (hproc.symm.trans (e ▸ (hi.1.main _ _ hi.1.main0).2)))
    · exact fun e => hp0 (Option.some.inj (hproc.symm.trans (e ▸ hi.1.idle0)))
    · rw [cleanedBy_of_end hend nofun]
      rfl

theorem fpuInstruction_calm (finit : FpuContext) (f : FpuContext → FpuContext) (s : TaskStruct) :
    Calm s (fpuInstruction finit f s) := by
  obtain ⟨ctx, used, ts, fpu, last, e⟩ := fpuInstruction_eq finit f s
  rw [e]
  exact ⟨fun t => Iff.rfl, fun t => id, fun t => ⟨rfl, rfl⟩, fun q => ⟨rfl, rfl, rfl⟩, rfl⟩

/-- **Every call has the effect that its events say.** -/
theorem exec_effect {finit : FpuContext} {hw : Bool} {s s' : TaskStruct} {op : Op} (hi : TaskInv s)
    (ho : op.Proper s) (h : exec finit hw s op = some s') : Effect s op s' := by
  cases op with
  | taskCreate stack stacksize processId priority =>
    cases h
    exact taskCreate_effect stack stacksize processId priority
  | processCreate stack stacksize priority pageDirectory pageDirSize cr3 procData parentProcessId =>
    cases h
    exact processCreate_effect ho.1 stack stacksize priority pageDirectory pageDirSize cr3 procData parentProcessId
  | schedule =>
    obtain ⟨⟨b, s₁⟩, h₁, rfl⟩ := Option.map_eq_some_iff.mp h
    exact (schedule_calm hi h₁).effect rfl rfl rfl nofun
  | timerInt => exact (timerInt_calm hi h).effect rfl rfl rfl nofun
  | taskJoin taskId => exact (taskJoin_calm hi ho.1 h).effect rfl rfl rfl nofun
  | processJoin procId => exact (processJoin_calm hi ho.1 h).effect rfl rfl rfl nofun
  | taskTerminate taskId =>
    obtain ⟨⟨b, s₁⟩, h₁, rfl⟩ := Option.map_eq_some_iff.mp h
    exact taskTerminate_effect hi ho.1 h₁
  | processTerminate processId =>
    obtain ⟨⟨b, s₁⟩, h₁, rfl⟩ := Option.map_eq_some_iff.mp h
    exact processTerminate_effect hi ho.1 h₁
  | taskResume taskId =>
    rw [exec, taskResume_step hi taskId ho.1 ho.2] at h
    cases h
    exact ((Untouched.refl s).calm rfl).effect rfl rfl rfl nofun
  | idleReap => exact idleReap_effect hi h
  | fpu f =>
    cases h
    exact (fpuInstruction_calm finit f s).effect rfl rfl rfl nofun
  | write addr value =>
    cases h
    exact ((Untouched.counters s s.executeCount s.remainQuantum (s.pages.write addr value)).calm rfl).effect
      rfl rfl rfl nofun

/-! ## runs with their history -/

structure History where
  tasks : List (Nat × TaskPtr)
  endedTasks : List Nat
  processes : List (Nat × ProcPtr)
  endedProcesses : List Nat
  cleaned : List ProcPtr

def History.empty : History := ⟨[], [], [], [], []⟩

/-- the history after a call made in the state `s` -/
def History.step (h : History) (s : TaskStruct) (op : Op) : History where
  tasks := h.tasks ++ (startedBy s op).toList
  endedTasks := h.endedTasks ++ ((endedBy s op).map fun t => (s.tasks t).id).toList
  processes := h.processes ++ (foundedBy s op).toList
  endedProcesses := h.endedProcesses ++ ((closedBy s op).map fun p => (s.processes p).id).toList
  cleaned := h.cleaned ++ (cleanedBy s op).toList

/-- the runs whose calls are all made in a state with `ok`, with their histories -/
inductive HistoryRun (finit : FpuContext) (ok : TaskStruct → Op → Prop) : TaskStruct → History → Prop
  | boot (fpu mem) : HistoryRun finit ok (ckTaskStructInitialize fpu mem) .empty
  | call {s h op hw s'} : HistoryRun finit ok s h → ok s op → exec finit hw s op = some s' →
      HistoryRun finit ok s' (h.step s op)

theorem HistoryRun.inv {finit : FpuContext} {ok : TaskStruct → Op → Prop} (hok : ∀ s op, ok s op → op.Proper s)
    {s : TaskStruct} {h : History} (hr : HistoryRun finit ok s h) : TaskInv s := by
  induction hr with
  | boot fpu mem => exact boot_inv fpu mem
  | call _ ho e ih => exact ((hok _ _ ho).step ih e).1

theorem HistoryRun.mono {finit : FpuContext} {ok ok' : TaskStruct → Op → Prop} (hok : ∀ s op, ok s op → ok' s op)
    {s : TaskStruct} {h : History} (hr : HistoryRun finit ok s h) : HistoryRun finit ok' s h := by
  induction hr with
  | boot fpu mem => exact .boot fpu mem
  | call _ ho e ih => exact ih.call (hok _ _ ho) e

/-- a call in which a task slot is free if it creates one -/
def Op.FreeSlot (s : TaskStruct) : Op → Prop
  | .taskCreate .. => freeTask s ≠ none
  | _ => True

/-- the calls `ops`, one after the other, with their history -/
def historyAll (finit : FpuContext) (ok : TaskStruct → Op → Prop) [∀ s op, Decidable (ok s op)] :
    List Op → TaskStruct → History → Option (TaskStruct × History)
  | [], s, h => some (s, h)
  | op :: ops, s, h =>
    if ok s op then (exec finit false s op).bind fun s' => historyAll finit ok ops s' (h.step s op) else none

theorem historyAll_run {finit : FpuContext} {ok : TaskStruct → Op → Prop} [∀ s op, Decidable (ok s op)]
    {ops : List Op} : ∀ {s : TaskStruct} {h : History} {r : TaskStruct × History}, HistoryRun finit ok s h →
      historyAll finit ok ops s h = some r → HistoryRun finit ok r.1 r.2 := by
  induction ops with
  | nil =>
    intro s h r hr e
    exact Option.some.inj e ▸ hr
  | cons op ops ih =>
    intro s h r hr e
    unfold historyAll at e
    by_cases ho : ok s op
    · rw [if_pos ho] at e
      obtain ⟨s₁, e₁, e₂⟩ := Option.bind_eq_some_iff.mp e
      exact ih (hr.call ho e₁) e₂
    · rw [if_neg ho] at e
      cases e

end Clubcos
