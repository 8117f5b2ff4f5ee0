import Clubcos.Task.Inv

/-!
# Creation of tasks and processes

* `ckTaskCreate_unsafe_eq`   what the creation of a task changes, as one update;
* `SchedInv.create`, `ckTaskCreate_inv`, `ckProcessCreate_inv`   creation keeps the invariant;
* `boot_inv`                 and it holds at boot.
-/

set_option linter.unusedVariables false
set_option linter.unusedSectionVars false

namespace Clubcos
open Word

/-! ## free slots -/

theorem firstSlot_some {n : Nat} {p : Fin n → Bool} : ∀ {rounds i : Nat} {j : Fin n},
    firstSlot p rounds i = some j → i ≤ j.val ∧ p j = true
  | 0, i, j, h => by cases h
  | rounds+1, i, j, h => by
    unfold firstSlot at h
    by_cases hi : i < n
    · rw [dif_pos hi] at h
      by_cases hp : p ⟨i, hi⟩ = true
      · rw [if_pos hp] at h
        cases h
        exact ⟨Nat.le_refl i, hp⟩
      · rw [if_neg hp] at h
        obtain ⟨h1, h2⟩ := firstSlot_some h
        exact ⟨Nat.le_of_succ_le h1, h2⟩
    · rw [dif_neg hi] at h
      cases h

theorem firstSlot_none {n : Nat} {p : Fin n → Bool} : ∀ {rounds i : Nat},
    firstSlot p rounds i = none ↔ ∀ j : Fin n, i ≤ j.val → j.val < i + rounds → p j = false
  | 0, i => iff_of_true rfl fun j h1 h2 => absurd h2 (Nat.not_lt.mpr h1)
  | rounds+1, i => by
    unfold firstSlot
    by_cases hi : i < n
    · rw [dif_pos hi]
      by_cases hp : p ⟨i, hi⟩ = true
      · rw [if_pos hp]
        exact iff_of_false nofun fun h => by
          rw [h ⟨i, hi⟩ (Nat.le_refl i) (Nat.lt_add_of_pos_right (Nat.succ_pos rounds))] at hp
          cases hp
      · rw [if_neg hp, firstSlot_none]
        refine forall_congr' fun j => ⟨fun h h1 h2 => ?_, fun h h1 h2 => h (by omega) (by omega)⟩
        rcases Nat.eq_or_lt_of_le h1 with e | h1
        · obtain rfl : j = ⟨i, hi⟩ := Fin.ext e.symm
          exact Bool.eq_false_iff.mpr hp
        · exact h h1 (by omega)
    · rw [dif_neg hi]
      exact iff_of_true rfl fun j h1 h2 => absurd j.isLt (by omega)

theorem freeTask_some {s : TaskStruct} {i : TaskPtr} (h : freeTask s = some i) :
    2 ≤ i.val ∧ (s.tasks i).selector = 0 := by
  obtain ⟨h1, h2⟩ := firstSlot_some h
  exact ⟨h1, of_decide_eq_true h2⟩

theorem freeProcess_some {s : TaskStruct} {p : ProcPtr} (h : freeProcess s = some p) :
    (s.processes p).pageDirectory = 0 := of_decide_eq_true (firstSlot_some h).2

theorem csGetTaskFromId_some {s : TaskStruct} {id : Nat} {t : TaskPtr} (h : csGetTaskFromId s id = some t) :
    (s.tasks t).Live ∧ (s.tasks t).id = id := by
  unfold csGetTaskFromId at h
  split at h
  · cases h
  · simp only [] at h
    split at h
    · cases h
      rename_i hc
      exact ⟨⟨hc.1, hc.2.2⟩, hc.2.1⟩
    · cases h

theorem csGetProcessFromId_some {s : TaskStruct} {id : Nat} {p : ProcPtr} (h : csGetProcessFromId s id = some p) :
    (s.processes p).pageDirectory ≠ 0 ∧ (s.processes p).id = id ∧ (s.processes p).pMainThread ≠ none := by
  unfold csGetProcessFromId at h
  split at h
  · cases h
  · simp only [] at h
    split at h
    · cases h
      assumption
    · cases h

/-! ## a new task -/

/-- the slot `i` after the creation of a task in it -/
def newTask (s : TaskStruct) (i : TaskPtr) (stack stacksize : Nat) (p : ProcPtr) (priority : TaskPriority) :
    Task :=
  { s.tasks i with
    waitObj := none, bFpuUsed := false, usedCpuTime := 0, selector := taskGdt0 + i.val, flag := .ready
    priority := priority, pProcess := some p, stack := stack, stacksize := stacksize
    id := s.taskIdMask ||| i.val }

def created (s : TaskStruct) (i : TaskPtr) (stack stacksize : Nat) (p : ProcPtr) (priority : TaskPriority) :
    TaskStruct :=
  { s with
    tasks := Function.update s.tasks i (newTask s i stack stacksize p priority)
    taskIdMask := u32 (s.taskIdMask + taskIdMaskUnit)
    nodes := ckLinkedListPushBack_lockfree s.nodes (.ready priority) i
    waits := ckLinkedListInit s.waits i
    threads := ckLinkedListPushBack_lockfree s.threads p i }

section
variable {s : TaskStruct} {i : TaskPtr} {stack stacksize : Nat} {p : ProcPtr} {priority : TaskPriority}

theorem created_self :
    (created s i stack stacksize p priority).tasks i = newTask s i stack stacksize p priority := Function.update_self _ _ _

theorem created_ne {j : TaskPtr} (e : j ≠ i) : (created s i stack stacksize p priority).tasks j = s.tasks j :=
  Function.update_of_ne e _ _

end

theorem ckTaskCreate_unsafe_eq {s : TaskStruct} {i : TaskPtr} (h : freeTask s = some i)
    (stack stacksize : Nat) (p : ProcPtr) (priority : TaskPriority) :
    ckTaskCreate_unsafe s stack stacksize p priority = (i, created s i stack stacksize p priority) := by
  unfold ckTaskCreate_unsafe
  rw [h]
  refine congrArg (fun f => (i, ({ s with
    tasks := f, taskIdMask := _, nodes := _, waits := _, threads := _ } : TaskStruct))) ?_
  exact update_twice s.tasks i
    (fun t => { t with
      waitObj := none, bFpuUsed := false, usedCpuTime := 0, selector := taskGdt0 + i.val
      flag := .ready, priority := priority, pProcess := some p })
    (fun t => { t with stack := stack, stacksize := stacksize, id := s.taskIdMask ||| i.val })

section
variable {s : TaskStruct} {stack stacksize processId : Nat} {priority : TaskPriority}

theorem ckTaskCreate_unknown (h : csGetProcessFromId s processId = none) :
    ckTaskCreate s stack stacksize processId priority = (taskInvalidId, s) := by
  unfold ckTaskCreate
  rw [h]

/-- without a free slot the id of the task in the last one is returned -/
theorem ckTaskCreate_noSlot {p : ProcPtr} (hf : freeTask s = none) (hp : csGetProcessFromId s processId = some p) :
    ckTaskCreate s stack stacksize processId priority = ((s.tasks ⟨maxTask - 1, by decide⟩).id, s) := by
  unfold ckTaskCreate ckTaskCreate_unsafe
  rw [hp, hf]

theorem ckTaskCreate_free {p : ProcPtr} {i : TaskPtr} (hf : freeTask s = some i)
    (hp : csGetProcessFromId s processId = some p) : ckTaskCreate s stack stacksize processId priority =
      (s.taskIdMask ||| i.val, created s i stack stacksize p priority) := by
  unfold ckTaskCreate
  rw [hp]
  simp only []
  rw [ckTaskCreate_unsafe_eq hf]
  exact congrArg (fun t : Task => (t.id, _)) created_self

end

/-! ## a new process -/

def newProcess (s : TaskStruct) (q parent : ProcPtr) (i : TaskPtr) (pageDirectory pageDirSize cr3 : Nat)
    (procData : ProcessData) : Process :=
  { s.processes q with
    pMainThread := some i, pParentProcess := some parent, pageDirectory := pageDirectory
    pageDirSize := pageDirSize, cr3 := cr3, usedCpuTime := 0, id := s.processIdMask ||| q.val
    procData := procData }

theorem fillProcess_eq (s : TaskStruct) (q parent : ProcPtr) (pageDirectory pageDirSize cr3 : Nat)
    (procData : ProcessData) :
    fillProcess s q parent pageDirectory pageDirSize cr3 procData = { s with
      threads := ckLinkedListInit s.threads q
      children := ckLinkedListPushBack_lockfree (ckLinkedListInit s.children q) parent q
      processIdMask := u32 (s.processIdMask + processIdMaskUnit)
      processes := Function.update s.processes q { s.processes q with
        pParentProcess := some parent, pageDirectory := pageDirectory, pageDirSize := pageDirSize, cr3 := cr3
        usedCpuTime := 0, id := s.processIdMask ||| q.val, procData := procData } } := by
  unfold fillProcess
  refine congrArg (fun f => ({ s with
    threads := _, children := _, processIdMask := _, processes := f } : TaskStruct)) ?_
  simp only [TaskStruct.setProcess, Function.update_idem, Function.update_self]

theorem ckProcessCreate_eq {s : TaskStruct} {i : TaskPtr} {parent q : ProcPtr} {parentProcessId : Nat}
    (hpar : csGetProcessFromId s parentProcessId = some parent) (hq : freeProcess s = some q)
    (hi : freeTask s = some i) (stack stacksize : Nat) (priority : TaskPriority)
    (pageDirectory pageDirSize cr3 : Nat) (procData : ProcessData) :
    ckProcessCreate s stack stacksize priority pageDirectory pageDirSize cr3 procData parentProcessId =
      (s.processIdMask ||| q.val, { created s i stack stacksize q priority with
        threads := ckLinkedListPushBack_lockfree (ckLinkedListInit s.threads q) q i
        children := ckLinkedListPushBack_lockfree (ckLinkedListInit s.children q) parent q
        processIdMask := u32 (s.processIdMask + processIdMaskUnit)
        processes := Function.update s.processes q
          (newProcess s q parent i pageDirectory pageDirSize cr3 procData) }) := by
  have hi' : freeTask (fillProcess s q parent pageDirectory pageDirSize cr3 procData) = some i := by
    rw [fillProcess_eq]
    exact hi
  unfold ckProcessCreate
  rw [hpar, hq]
  simp only []
  rw [ckTaskCreate_unsafe_eq hi', fillProcess_eq]
  refine congrArg (fun f => (_, ({ created s i stack stacksize q priority with
    threads := _, children := _, processIdMask := _, processes := f } : TaskStruct))) ?_
  show Function.update (Function.update s.processes q _) q { Function.update s.processes q _ q with
    pMainThread := some i } = _
  rw [Function.update_idem, Function.update_self]
  rfl

/-- where there is no process slot left, or no such parent -/
theorem ckProcessCreate_none {s : TaskStruct} {parentProcessId : Nat}
    (h : csGetProcessFromId s parentProcessId = none ∨ freeProcess s = none) (stack stacksize : Nat)
    (priority : TaskPriority) (pageDirectory pageDirSize cr3 : Nat) (procData : ProcessData) :
    ckProcessCreate s stack stacksize priority pageDirectory pageDirSize cr3 procData parentProcessId =
      (processInvalidId, s) := by
  unfold ckProcessCreate
  cases hpar : csGetProcessFromId s parentProcessId with
  | none => rfl
  | some parent =>
    rcases h with h | h
    · rw [hpar] at h
      cases h
    · rw [h]

/-! ## the invariant -/

section

variable {s s' : TaskStruct} {i : TaskPtr} {stack stacksize : Nat} {p : ProcPtr} {priority : TaskPriority}
  (hfree : 2 ≤ i.val ∧ (s.tasks i).selector = 0)
  (htasks : s'.tasks = Function.update s.tasks i (newTask s i stack stacksize p priority))

theorem newTask_used (s : TaskStruct) (i : TaskPtr) (stack stacksize : Nat) (p : ProcPtr) (priority : TaskPriority) :
    (newTask s i stack stacksize p priority).selector ≠ 0 :=
  Nat.succ_ne_zero _ ∘ fun h => (Nat.add_comm _ _).trans h

include htasks

theorem newTask_self : s'.tasks i = newTask s i stack stacksize p priority := by rw [htasks, Function.update_self]

theorem newTask_other {j : TaskPtr} (h : j ≠ i) : s'.tasks j = s.tasks j := by rw [htasks, Function.update_of_ne h]

include hfree

theorem newTask_slots (hslot : SlotInv s fun t => (s.tasks t).Live) (hnow : s'.pNow = s.pNow)
    (hprocs : (s'.processes = s.processes ∧
        (p = kernelProcess ∨ (s.processes p).pParentProcess ≠ none)) ∨
      ∃ np : Process, s'.processes = Function.update s.processes p np ∧ p ≠ kernelProcess ∧
        np.pMainThread = some i ∧ np.pParentProcess ≠ none) : SlotInv s' fun t => (s'.tasks t).Live := by
  have hself := newTask_self htasks
  have hother : ∀ j, j ≠ i → s'.tasks j = s.tasks j := fun j => newTask_other htasks
  have hne : i ≠ kernelTask ∧ i ≠ idleTask := by
    constructor <;> rintro rfl <;> exact absurd hfree.1 (by decide)
  have hsel : (s'.tasks i).selector ≠ 0 := hself ▸ newTask_used s i stack stacksize p priority
  have hfl : (s'.tasks i).flag = .ready := by rw [hself]; rfl
  have hwo : (s'.tasks i).waitObj = none := by rw [hself]; rfl
  have hpr : (s'.tasks i).pProcess = some p := by rw [hself]; rfl
  have hmain : ∀ q m, (s'.processes q).pMainThread = some m →
      m = i ∧ q = p ∨ (s.processes q).pMainThread = some m := by
    rcases hprocs with ⟨e, _⟩ | ⟨np, e, _, hm, _⟩
    · exact fun q m h => Or.inr (e ▸ h)
    · intro q m h
      by_cases eq : q = p
      · rw [e, eq, Function.update_self, hm] at h
        exact Or.inl ⟨(Option.some.inj h).symm, eq⟩
      · rw [e, Function.update_of_ne eq] at h
        exact Or.inr h
  have hpar : (p = kernelProcess ∨ (s'.processes p).pParentProcess ≠ none) ∧
      ∀ q, q ≠ p → (s'.processes q).pParentProcess = (s.processes q).pParentProcess := by
    rcases hprocs with ⟨e, h⟩ | ⟨np, e, _, _, hp⟩
    · exact ⟨e ▸ h, fun q _ => by rw [e]⟩
    · exact ⟨Or.inr (by rwa [e, Function.update_self]), fun q hq => by rw [e, Function.update_of_ne hq]⟩
  have hker : s'.processes kernelProcess = s.processes kernelProcess := by
    rcases hprocs with ⟨e, _⟩ | ⟨np, e, hne, _⟩
    · rw [e]
    · rw [e, Function.update_of_ne hne.symm]
  have hdead : ¬ (s.tasks i).Live := fun h => h.1 hfree.2
  have hlive : (s'.tasks i).Live := ⟨hsel, fun h => by
    rw [hfl] at h
    cases h⟩
  refine hslot.change hother hnow (fun j e => by rw [hother j e]) (fun h => absurd h hdead) hne.2 (Or.inr hne.1) hker
    (fun q m h => ?_) (fun q h => ?_) (.quiet id hwo hpr hpar.1 (Or.inl hfl))
  · rcases hmain q m h with ⟨rfl, rfl⟩ | hm
    · exact ⟨hlive, hpr⟩
    · obtain ⟨hl, hp⟩ := hslot.main q m hm
      have e : m ≠ i := fun e => hdead (e ▸ hl)
      exact ⟨(hother m e).symm ▸ hl, (congrArg Task.pProcess (hother m e)).trans hp⟩
  · by_cases e : q = p
    · subst e
      rcases hpar.1 with e | hp
      · rwa [e, hker, ← e]
      · exact hp
    · rwa [hpar.2 q e]

theorem newTask_places (hplaces : Located s.nodes (fun _ => True) s.place)
    (hnodes : s'.nodes = ckLinkedListPushBack_lockfree s.nodes (.ready priority) i) :
    Located s'.nodes (fun _ => True) s'.place := by
  rw [hnodes]
  refine (hplaces.push (n := i) trivial fun l _ => ?_).congr fun l _ j => ?_
  · rw [TaskStruct.place, place_free hfree.2]
    exact fun h => by cases h
  · rw [TaskStruct.place]
    by_cases e : j = i
    · rw [e, Function.update_self, newTask_self htasks, place_ready (newTask_used s i stack stacksize p priority) rfl]
      rfl
    · rw [Function.update_of_ne e, TaskStruct.place, newTask_other htasks e]

theorem newTask_waits (hslot : SlotInv s fun t => (s.tasks t).Live)
    (hwait : Located s.waits (fun t => (s.tasks t).Live) s.waitObj) (hwaits : s'.waits = ckLinkedListInit s.waits i) :
    Located s'.waits (fun t => (s'.tasks t).Live) s'.waitObj := by
  -- nobody waits for a slot that is not in use
  have hnobody : ∀ j, s.waitObj j ≠ some i := fun j h => ((hslot.waitObj j i h).1).1 hfree.2
  rw [hwaits]
  refine ((hwait.init hnobody).mono fun l hl => ?_).congr fun l _ j => ?_
  · by_cases e : l = i
    · exact Or.inr e
    · exact Or.inl (newTask_other htasks e ▸ hl)
  · rw [TaskStruct.waitObj, TaskStruct.waitObj]
    by_cases e : j = i
    · have hno : (s.tasks i).waitObj = none := by
        cases h : (s.tasks i).waitObj with
        | none => rfl
        | some u => exact absurd hfree.2 (hslot.waitObj i u h).2.1
      rw [e, hno, newTask_self htasks]
      rfl
    · rw [newTask_other htasks e]

/-- A new task keeps the invariant, in a process that is there or as the main thread of a new one. -/
theorem TaskInv.newTask (hi : TaskInv s)
    (hnodes : s'.nodes = ckLinkedListPushBack_lockfree s.nodes (.ready priority) i)
    (hwaits : s'.waits = ckLinkedListInit s.waits i) (hnow : s'.pNow = s.pNow)
    (hprocs : (s'.processes = s.processes ∧
        (p = kernelProcess ∨ (s.processes p).pParentProcess ≠ none)) ∨
      ∃ np : Process, s'.processes = Function.update s.processes p np ∧ p ≠ kernelProcess ∧
        np.pMainThread = some i ∧ np.pParentProcess ≠ none) : TaskInv s' := by
  obtain ⟨⟨hslot, hplaces, hwait⟩, hrun⟩ := hi
  refine ⟨⟨newTask_slots hfree htasks hslot hnow hprocs, newTask_places hfree htasks hplaces hnodes,
    newTask_waits hfree htasks hslot hwait hwaits⟩, ?_⟩
  have e : s.pNow ≠ i := fun e => hrun.1 (e ▸ hfree.2)
  unfold Running
  rw [hnow, newTask_other htasks e]
  exact hrun

end

/-- the parent of a process that `csGetProcessFromId` finds -/
theorem SlotInv.parent_of_id {s : TaskStruct} {L : TaskPtr → Prop} (hi : SlotInv s L) {id : Nat} {p : ProcPtr}
    (h : csGetProcessFromId s id = some p) :
    p = kernelProcess ∨ (s.processes p).pParentProcess ≠ none := by
  obtain ⟨_, _, hmain⟩ := csGetProcessFromId_some h
  obtain ⟨m, hm⟩ := Option.ne_none_iff_exists'.mp hmain
  obtain ⟨hl, hp⟩ := hi.main p m hm
  exact hi.parent m p (hi.live m hl).1 hp

theorem ckTaskCreate_cases (s : TaskStruct) (stack stacksize processId : Nat) (priority : TaskPriority) :
    (ckTaskCreate s stack stacksize processId priority).2 = s ∨
      ∃ p i, csGetProcessFromId s processId = some p ∧ freeTask s = some i ∧
        (ckTaskCreate s stack stacksize processId priority).2 = created s i stack stacksize p priority := by
  cases hp : csGetProcessFromId s processId with
  | none => exact Or.inl (congrArg Prod.snd (ckTaskCreate_unknown hp))
  | some p =>
    cases hf : freeTask s with
    | none => exact Or.inl (congrArg Prod.snd (ckTaskCreate_noSlot hf hp))
    | some i => exact Or.inr ⟨p, i, rfl, rfl, congrArg Prod.snd (ckTaskCreate_free hf hp)⟩

theorem ckTaskCreate_inv {s : TaskStruct} (hi : TaskInv s) (stack stacksize processId : Nat)
    (priority : TaskPriority) : TaskInv (ckTaskCreate s stack stacksize processId priority).2 := by
  rcases ckTaskCreate_cases s stack stacksize processId priority with e | ⟨p, i, hp, hf, e⟩
  · rwa [e]
  · rw [e]
    exact hi.newTask (freeTask_some hf) rfl rfl rfl rfl (Or.inl ⟨rfl, hi.1.toSlotInv.parent_of_id hp⟩)

theorem ckProcessCreate_inv {s : TaskStruct} (hi : TaskInv s) (hfree : freeTask s ≠ none)
    (stack stacksize : Nat) (priority : TaskPriority) (pageDirectory pageDirSize cr3 : Nat)
    (procData : ProcessData) (parentProcessId : Nat) :
    TaskInv (ckProcessCreate s stack stacksize priority pageDirectory pageDirSize cr3 procData
      parentProcessId).2 := by
  obtain ⟨i, hf⟩ := Option.ne_none_iff_exists'.mp hfree
  cases hpar : csGetProcessFromId s parentProcessId with
  | none =>
    rwa [ckProcessCreate_none (Or.inl hpar)]
  | some parent =>
    cases hq : freeProcess s with
    | none => rwa [ckProcessCreate_none (Or.inr hq)]
    | some q =>
      rw [ckProcessCreate_eq hpar hq hf]
      have hne : q ≠ kernelProcess := fun e => hi.1.dir0 (e ▸ freeProcess_some hq)
      exact hi.newTask (freeTask_some hf) rfl rfl rfl rfl
        (Or.inr ⟨_, rfl, hne, rfl, Option.some_ne_none _⟩)

/-! ## at boot -/

theorem initReady_located {f : TaskPtr → Option SchedList}
    (hf : ∀ t l, f t ≠ some l) (ps : List TaskPriority) : ∀ {h : Heap SchedList TaskPtr} {act : SchedList → Prop},
    Located h act f → Located (ps.foldl (fun h p => ckLinkedListInit h (.ready p)) h)
      (fun l => act l ∨ ∃ p ∈ ps, l = .ready p) f := by
  induction ps with
  | nil => exact fun hl => hl.mono fun l h => h.resolve_right fun ⟨p, hp, _⟩ => List.not_mem_nil hp
  | cons p ps ih =>
    intro h act hl
    refine (ih (hl.init fun t => hf t (.ready p))).mono ?_
    rintro l (ha | ⟨q, hq, e⟩)
    · exact Or.inl (Or.inl ha)
    · rcases List.mem_cons.mp hq with rfl | hq
      · exact Or.inl (Or.inr e)
      · exact Or.inr ⟨q, hq, e⟩

theorem initSchedLists_located (h : Heap SchedList TaskPtr) :
    Located (initSchedLists h) (fun _ => True) fun _ => none := by
  have hnone : ∀ (t : TaskPtr) (l : SchedList), (none : Option SchedList) ≠ some l := fun _ _ h => by cases h
  have hready := initReady_located hnone TaskPriority.all (Located.none h _)
  refine ((hready.init fun t => hnone t .waitForExit).init fun t => hnone t .wait).mono fun l _ => ?_
  cases l with
  | ready p => exact Or.inl (Or.inl (Or.inr ⟨p, mem_all p, rfl⟩))
  | wait => exact Or.inr rfl
  | waitForExit => exact Or.inl (Or.inr rfl)

/-- the slots at boot: the kernel and the idle task -/
theorem boot_tasks (fpu : FpuContext) (mem : Nat → Nat) : ∃ k i : Task,
    (ckTaskStructInitialize fpu mem).tasks = (fun j => if j = idleTask then i else if j = kernelTask then k
      else (TaskStruct.zero fpu mem).tasks j) ∧
    k.waitObj = none ∧ k.selector ≠ 0 ∧ k.flag = .running ∧ k.pProcess = some kernelProcess ∧ k.bFpuUsed = false ∧
    i.waitObj = none ∧ i.selector ≠ 0 ∧ i.flag = .ready ∧ i.pProcess = some kernelProcess ∧ i.bFpuUsed = false ∧
    i.priority = .idle := by
  refine ⟨(ckTaskStructInitialize fpu mem).tasks kernelTask, (ckTaskStructInitialize fpu mem).tasks idleTask,
    funext fun j => ?_, rfl, (by decide : taskGdt0 ≠ 0), rfl, rfl, rfl, rfl, (by decide : taskGdt0 + 1 ≠ 0),
    rfl, rfl, rfl, rfl⟩
  by_cases e1 : j = idleTask
  · rw [if_pos e1, e1]
  · by_cases e0 : j = kernelTask
    · rw [if_neg e1, if_pos e0, e0]
    · rw [if_neg e1, if_neg e0]
      simp [ckTaskStructInitialize, TaskStruct.setTask, TaskStruct.setProcess, e0, e1]

section

variable (fpu : FpuContext) (mem : Nat → Nat)

/-- the slots at boot, one by one -/
theorem boot_slot (j : TaskPtr) : ((ckTaskStructInitialize fpu mem).tasks j).waitObj = none ∧
    (j = kernelTask ∧ ((ckTaskStructInitialize fpu mem).tasks j).selector ≠ 0 ∧
        ((ckTaskStructInitialize fpu mem).tasks j).flag = .running ∧
        ((ckTaskStructInitialize fpu mem).tasks j).pProcess = some kernelProcess ∨
      j = idleTask ∧ ((ckTaskStructInitialize fpu mem).tasks j).selector ≠ 0 ∧
        ((ckTaskStructInitialize fpu mem).tasks j).flag = .ready ∧
        ((ckTaskStructInitialize fpu mem).tasks j).pProcess = some kernelProcess ∧
        ((ckTaskStructInitialize fpu mem).tasks j).priority = .idle ∨
      j ≠ idleTask ∧ j ≠ kernelTask ∧ ((ckTaskStructInitialize fpu mem).tasks j).selector = 0 ∧
        ((ckTaskStructInitialize fpu mem).tasks j).pProcess = none) := by
  obtain ⟨k, i, htasks, hkw, hks, hkf, hkp, _, hiw, his, hif, hip, _, hiprio⟩ := boot_tasks fpu mem
  rw [htasks]
  by_cases e1 : j = idleTask
  · simp only [if_pos e1]
    exact ⟨hiw, Or.inr (Or.inl ⟨e1, his, hif, hip, hiprio⟩)⟩
  · by_cases e0 : j = kernelTask
    · simp only [if_neg e1, if_pos e0]
      exact ⟨hkw, Or.inl ⟨e0, hks, hkf, hkp⟩⟩
    · simp only [if_neg e1, if_neg e0]
      exact ⟨rfl, Or.inr (Or.inr ⟨e1, e0, rfl, rfl⟩)⟩

theorem boot_main {p : ProcPtr} {m : TaskPtr} (h : ((ckTaskStructInitialize fpu mem).processes p).pMainThread = some m) :
    p = kernelProcess ∧ m = kernelTask := by
  by_cases e : p = kernelProcess
  · subst e
    exact ⟨rfl, (Option.some.inj h).symm⟩
  · change (Function.update (TaskStruct.zero fpu mem).processes kernelProcess _ p : Process).pMainThread = some m at h
    rw [Function.update_of_ne e] at h
    cases h

theorem boot_fits (j : TaskPtr) : SlotFits (ckTaskStructInitialize fpu mem)
    (fun t => ((ckTaskStructInitialize fpu mem).tasks t).Live) j := by
  obtain ⟨hw, ⟨e, _, hf, hp⟩ | ⟨_, _, hf, hp, _⟩ | ⟨_, _, hs, _⟩⟩ := boot_slot fpu mem j
  · exact .quiet id hw hp (Or.inl rfl) (Or.inr ⟨hf, e⟩)
  · exact .quiet id hw hp (Or.inl rfl) (Or.inl hf)
  · exact .free (fun h => h.1 hs) hs hw

theorem boot_slots : SlotInv (ckTaskStructInitialize fpu mem)
    fun t => ((ckTaskStructInitialize fpu mem).tasks t).Live := by
  have hfits := boot_fits fpu mem
  have hkernel : ((ckTaskStructInitialize fpu mem).tasks kernelTask).Live := ⟨(by decide : taskGdt0 ≠ 0), fun h => by cases h⟩
  have hidle : ((ckTaskStructInitialize fpu mem).tasks idleTask).Live :=
    ⟨(by decide : taskGdt0 + 1 ≠ 0), fun h => by cases h⟩
  have hdir : u32 (sub32 kernelCr3 kernelBaseAddress + kernelPhyBaseAddr) ≠ 0 := by decide
  refine .ofFits hfits hkernel ⟨hidle, Or.inl rfl⟩ (fun p m h => ?_) rfl hdir ⟨rfl, rfl, rfl⟩ rfl
  obtain ⟨rfl, rfl⟩ := boot_main fpu mem h
  exact ⟨hkernel, rfl⟩

theorem boot_places : Located (ckTaskStructInitialize fpu mem).nodes (fun _ => True)
    (ckTaskStructInitialize fpu mem).place := by
  have hno : ∀ l, True → (none : Option SchedList) ≠ some l := fun l _ h => by cases h
  refine ((initSchedLists_located _).push (l := .ready .idle) (n := idleTask) trivial hno).congr fun l _ j => ?_
  rw [TaskStruct.place]
  obtain ⟨_, ⟨rfl, _, hf, _⟩ | ⟨rfl, hs, hf, _, hprio⟩ | ⟨e, _, hs, _⟩⟩ := boot_slot fpu mem j
  · rw [Function.update_of_ne (by decide), place_running hf]
  · rw [Function.update_self, place_ready hs hf, hprio]
  · rw [Function.update_of_ne e, place_free hs]

theorem boot_waits : Located (ckTaskStructInitialize fpu mem).waits
    (fun t => ((ckTaskStructInitialize fpu mem).tasks t).Live) (ckTaskStructInitialize fpu mem).waitObj := by
  have hno : ∀ (j l : TaskPtr), (none : Option TaskPtr) ≠ some l := fun j l h => by cases h
  have h0 := (Located.none Heap.zero _).init fun j => hno j kernelTask
  refine ((h0.init fun j => hno j idleTask).mono fun l hl => ?_).congr fun l _ j => ?_
  · obtain ⟨_, ⟨e, _⟩ | ⟨e, _⟩ | ⟨_, _, hs, _⟩⟩ := boot_slot fpu mem l
    · exact Or.inl (Or.inr e)
    · exact Or.inr e
    · exact absurd hs hl.1
  · rw [TaskStruct.waitObj, (boot_slot fpu mem j).1]

theorem boot_inv : TaskInv (ckTaskStructInitialize fpu mem) :=
  ⟨⟨boot_slots fpu mem, boot_places fpu mem, boot_waits fpu mem⟩, (by decide : taskGdt0 ≠ 0), rfl⟩

/-- the one process at boot -/
theorem boot_directory (p : ProcPtr) :
    ((ckTaskStructInitialize fpu mem).processes p).pageDirectory ≠ 0 ↔ p = kernelProcess := by
  refine ⟨fun hp => by_contra fun e => hp ?_, fun e => e ▸ (boot_slots fpu mem).dir0⟩
  show (Function.update (TaskStruct.zero fpu mem).processes kernelProcess _ p : Process).pageDirectory = 0
  rw [Function.update_of_ne e]
  rfl

end

end Clubcos
