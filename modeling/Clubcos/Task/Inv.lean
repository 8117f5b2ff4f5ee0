import Clubcos.Task.Sched

/-!
# The invariant of the scheduler

`Task.place` is the list that the `_node` of a task belongs in, read off its flag.

* `SlotInv s L`     the flags, `WaitObj` and the processes fit together; `SlotFits s L t` is what it says of one
                    slot, and `SlotInv.change` what has to be shown when a call changes one;
* `SchedInv s L`    the lists agree with the flags and with `WaitObj`; `L` are the tasks that have not
                    terminated, which during a termination leaves out the task that ends;
* `SchedInv.schedule`   a call of the scheduler keeps it and leaves the current task RUNNING.
-/

set_option linter.unusedVariables false
set_option linter.unusedSectionVars false

namespace Clubcos
open Word

/-- the slot is in use and its task has not terminated -/
def Task.Live (t : Task) : Prop := t.selector ≠ 0 ∧ t.flag ≠ .waitForExit

def Task.place (t : Task) : Option SchedList :=
  if t.selector = 0 then none
  else
    match t.flag with
    | .running => none
    | .ready => some (.ready t.priority)
    | .wait => some .wait
    | .waitForExit => some .waitForExit

theorem place_free {t : Task} (h : t.selector = 0) : t.place = none := if_pos h

theorem place_running {t : Task} (h : t.flag = .running) : t.place = none := by
  unfold Task.place
  rw [h]
  exact ite_self none

theorem place_ready {t : Task} (hs : t.selector ≠ 0) (h : t.flag = .ready) :
    t.place = some (.ready t.priority) := by
  unfold Task.place
  rw [if_neg hs, h]

theorem place_wait {t : Task} (hs : t.selector ≠ 0) (h : t.flag = .wait) : t.place = some .wait := by
  unfold Task.place
  rw [if_neg hs, h]

theorem place_exit {t : Task} (hs : t.selector ≠ 0) (h : t.flag = .waitForExit) :
    t.place = some .waitForExit := by
  unfold Task.place
  rw [if_neg hs, h]

/-- what the list of a task says about it -/
theorem place_some {t : Task} {l : SchedList} (h : t.place = some l) : t.selector ≠ 0 ∧
    ((t.flag = .ready ∧ l = .ready t.priority) ∨ (t.flag = .wait ∧ l = .wait) ∨
      (t.flag = .waitForExit ∧ l = .waitForExit)) := by
  unfold Task.place at h
  by_cases hs : t.selector = 0
  · rw [if_pos hs] at h
    cases h
  · rw [if_neg hs] at h
    refine ⟨hs, ?_⟩
    cases hf : t.flag <;> rw [hf] at h <;> cases h
    · exact Or.inl ⟨rfl, rfl⟩
    · exact Or.inr (Or.inl ⟨rfl, rfl⟩)
    · exact Or.inr (Or.inr ⟨rfl, rfl⟩)

theorem ready_of_place {t : Task} {p : TaskPriority} (h : t.place = some (.ready p)) :
    t.selector ≠ 0 ∧ t.flag = .ready := by
  rcases place_some h with ⟨hs, ⟨hf, _⟩ | ⟨_, e⟩ | ⟨_, e⟩⟩
  · exact ⟨hs, hf⟩
  · cases e
  · cases e

theorem wait_of_place {t : Task} (h : t.place = some .wait) : t.selector ≠ 0 ∧ t.flag = .wait := by
  rcases place_some h with ⟨hs, ⟨_, e⟩ | ⟨hf, _⟩ | ⟨_, e⟩⟩
  · cases e
  · exact ⟨hs, hf⟩
  · cases e

theorem exit_of_place {t : Task} (h : t.place = some .waitForExit) :
    t.selector ≠ 0 ∧ t.flag = .waitForExit := by
  rcases place_some h with ⟨hs, ⟨_, e⟩ | ⟨_, e⟩ | ⟨hf, _⟩⟩
  · cases e
  · cases e
  · exact ⟨hs, hf⟩

def TaskStruct.place (s : TaskStruct) (t : TaskPtr) : Option SchedList := (s.tasks t).place

def TaskStruct.waitObj (s : TaskStruct) (t : TaskPtr) : Option TaskPtr := (s.tasks t).waitObj

/-- what holds of the slots alone: the flags, `WaitObj` and the processes fit together -/
structure SlotInv (s : TaskStruct) (L : TaskPtr → Prop) : Prop where
  live : ∀ t, L t → (s.tasks t).Live
  waitObj : ∀ t u, (s.tasks t).waitObj = some u → L u ∧ (s.tasks t).selector ≠ 0 ∧ (s.tasks t).flag = .wait
  waiting : ∀ t, (s.tasks t).selector ≠ 0 → (s.tasks t).flag = .wait → (s.tasks t).waitObj ≠ none
  single : ∀ t, (s.tasks t).selector ≠ 0 → (s.tasks t).flag = .running → t = s.pNow
  kernel : L kernelTask
  idle : L idleTask ∧ ((s.tasks idleTask).flag = .ready ∨ (s.tasks idleTask).flag = .running)
  proc : ∀ t, L t → (s.tasks t).pProcess ≠ none
  main : ∀ p m, (s.processes p).pMainThread = some m → L m ∧ (s.tasks m).pProcess = some p
  main0 : (s.processes kernelProcess).pMainThread = some kernelTask
  dir0 : (s.processes kernelProcess).pageDirectory ≠ 0
  parent : ∀ t p, (s.tasks t).selector ≠ 0 → (s.tasks t).pProcess = some p →
    p = kernelProcess ∨ (s.processes p).pParentProcess ≠ none
  exit : ∀ t, (s.tasks t).selector ≠ 0 → (s.tasks t).flag = .waitForExit →
    (s.tasks t).pProcess ≠ some kernelProcess
  ids : (s.tasks kernelTask).id = kernelTaskId ∧ (s.tasks idleTask).id = idleTaskId ∧
    (s.processes kernelProcess).id = kernelProcessId
  idle0 : (s.tasks idleTask).pProcess = some kernelProcess

theorem SlotInv.waits_not {s : TaskStruct} {L : TaskPtr → Prop} (hi : SlotInv s L) {t : TaskPtr}
    (h : (s.tasks t).flag ≠ .wait) : (s.tasks t).waitObj = none := by
  cases hw : (s.tasks t).waitObj with
  | none => rfl
  | some u => exact absurd (hi.waitObj t u hw).2.2 h

/-- what `SlotInv` says of one slot -/
structure SlotFits (s : TaskStruct) (L : TaskPtr → Prop) (t : TaskPtr) : Prop where
  live : L t → (s.tasks t).Live
  waitObj : ∀ u, (s.tasks t).waitObj = some u → L u ∧ (s.tasks t).selector ≠ 0 ∧ (s.tasks t).flag = .wait
  waiting : (s.tasks t).selector ≠ 0 → (s.tasks t).flag = .wait → (s.tasks t).waitObj ≠ none
  single : (s.tasks t).selector ≠ 0 → (s.tasks t).flag = .running → t = s.pNow
  proc : L t → (s.tasks t).pProcess ≠ none
  parent : ∀ p, (s.tasks t).selector ≠ 0 → (s.tasks t).pProcess = some p →
    p = kernelProcess ∨ (s.processes p).pParentProcess ≠ none
  exit : (s.tasks t).selector ≠ 0 → (s.tasks t).flag = .waitForExit → (s.tasks t).pProcess ≠ some kernelProcess

theorem SlotInv.fits {s : TaskStruct} {L : TaskPtr → Prop} (hi : SlotInv s L) (t : TaskPtr) : SlotFits s L t :=
  ⟨hi.live t, hi.waitObj t, hi.waiting t, hi.single t, hi.proc t, hi.parent t, hi.exit t⟩

/-- the invariant from what it says of each slot and what it says of the kernel -/
theorem SlotInv.ofFits {s : TaskStruct} {L : TaskPtr → Prop} (hfits : ∀ t, SlotFits s L t) (hkernel : L kernelTask)
    (hidle : L idleTask ∧ ((s.tasks idleTask).flag = .ready ∨ (s.tasks idleTask).flag = .running))
    (hmain : ∀ p m, (s.processes p).pMainThread = some m → L m ∧ (s.tasks m).pProcess = some p)
    (hmain0 : (s.processes kernelProcess).pMainThread = some kernelTask)
    (hdir0 : (s.processes kernelProcess).pageDirectory ≠ 0)
    (hids : (s.tasks kernelTask).id = kernelTaskId ∧ (s.tasks idleTask).id = idleTaskId ∧
      (s.processes kernelProcess).id = kernelProcessId)
    (hidle0 : (s.tasks idleTask).pProcess = some kernelProcess) : SlotInv s L where
  live t := (hfits t).live
  waitObj t := (hfits t).waitObj
  waiting t := (hfits t).waiting
  single t := (hfits t).single
  kernel := hkernel
  idle := hidle
  proc t := (hfits t).proc
  main := hmain
  main0 := hmain0
  dir0 := hdir0
  parent t := (hfits t).parent
  exit t := (hfits t).exit
  ids := hids
  idle0 := hidle0

section

variable {s s' : TaskStruct} {L L' : TaskPtr → Prop} {t : TaskPtr}

theorem SlotFits.free (hL : ¬ L t) (hsel : (s.tasks t).selector = 0) (hwo : (s.tasks t).waitObj = none) :
    SlotFits s L t where
  live h := absurd h hL
  waitObj u h := by
    rw [hwo] at h
    cases h
  waiting h := absurd hsel h
  single h := absurd hsel h
  proc h := absurd h hL
  parent p h := absurd hsel h
  exit h := absurd hsel h

/-- a task of the process `p` that is READY or the current one -/
theorem SlotFits.quiet {p : ProcPtr} (hlive : L t → (s.tasks t).Live) (hwo : (s.tasks t).waitObj = none)
    (hp : (s.tasks t).pProcess = some p) (hpar : p = kernelProcess ∨ (s.processes p).pParentProcess ≠ none)
    (hf : (s.tasks t).flag = .ready ∨ (s.tasks t).flag = .running ∧ t = s.pNow) : SlotFits s L t where
  live := hlive
  waitObj u h := by
    rw [hwo] at h
    cases h
  waiting _ h := by
    rcases hf with e | ⟨e, _⟩ <;> rw [e] at h <;> cases h
  single _ h := by
    rcases hf with e | ⟨_, e⟩
    · rw [e] at h
      cases h
    · exact e
  proc _ := by
    rw [hp]
    exact Option.some_ne_none p
  parent q _ h := Option.some.inj (hp.symm.trans h) ▸ hpar
  exit _ h := by
    rcases hf with e | ⟨e, _⟩ <;> rw [e] at h <;> cases h

/-- a slot that has not changed -/
theorem SlotFits.congr (h : SlotFits s L t) (ht : s'.tasks t = s.tasks t) (hnow : s'.pNow = s.pNow) (hL : L' t → L t)
    (hwo : ∀ u, (s.tasks t).waitObj = some u → L u → L' u)
    (hpar : ∀ q, (s.processes q).pParentProcess ≠ none → (s'.processes q).pParentProcess ≠ none) :
    SlotFits s' L' t := by
  refine ⟨fun hl => ?_, fun u hu => ?_, ?_, ?_, fun hl => ?_, fun p hs hp => ?_, ?_⟩ <;> rw [ht] at *
  · exact h.live (hL hl)
  · obtain ⟨hl, hs⟩ := h.waitObj u hu
    exact ⟨hwo u hu hl, hs⟩
  · exact h.waiting
  · rw [hnow]
    exact h.single
  · exact h.proc (hL hl)
  · exact (h.parent p hs hp).imp_right (hpar p)
  · exact h.exit

/-- **The invariant survives the change of one slot** that fits again; a call that changes one task goes through this. -/
theorem SlotInv.change (hi : SlotInv s L) (hother : ∀ j, j ≠ t → s'.tasks j = s.tasks j) (hnow : s'.pNow = s.pNow)
    (hL : ∀ j, j ≠ t → (L' j ↔ L j)) (hself : L t → L' t) (hidle : t ≠ idleTask)
    (hid : (s'.tasks t).id = (s.tasks t).id ∨ t ≠ kernelTask) (hker : s'.processes kernelProcess = s.processes kernelProcess)
    (hmain : ∀ p m, (s'.processes p).pMainThread = some m → L' m ∧ (s'.tasks m).pProcess = some p)
    (hpar : ∀ q, (s.processes q).pParentProcess ≠ none → (s'.processes q).pParentProcess ≠ none)
    (hfits : SlotFits s' L' t) : SlotInv s' L' := by
  have hmono : ∀ j, L j → L' j := fun j hj => by
    by_cases e : j = t
    · rw [e] at hj ⊢
      exact hself hj
    · exact (hL j e).mpr hj
  have hall : ∀ j, SlotFits s' L' j := fun j => by
    by_cases e : j = t
    · rw [e]
      exact hfits
    · exact (hi.fits j).congr (hother j e) hnow (hL j e).mp (fun u _ => hmono u) hpar
  have hkid : (s'.tasks kernelTask).id = kernelTaskId := by
    by_cases e : kernelTask = t
    · rw [e, hid.resolve_right (not_not_intro e.symm), ← e]
      exact hi.ids.1
    · rw [hother _ e]
      exact hi.ids.1
  have hitask : s'.tasks idleTask = s.tasks idleTask := hother _ hidle.symm
  exact .ofFits hall (hmono _ hi.kernel) ⟨hmono _ hi.idle.1, hitask ▸ hi.idle.2⟩ hmain (hker ▸ hi.main0)
    (hker ▸ hi.dir0) ⟨hkid, hitask ▸ hi.ids.2.1, hker ▸ hi.ids.2.2⟩ (hitask ▸ hi.idle0)

/-- the change of one slot, while the processes and the tasks that are live stay -/
theorem SlotInv.keep (hi : SlotInv s L) (hother : ∀ j, j ≠ t → s'.tasks j = s.tasks j) (hnow : s'.pNow = s.pNow)
    (hprocs : ∀ q, s'.processes q = s.processes q) (hlive : L t → t ≠ idleTask ∧ (s'.tasks t).id = (s.tasks t).id ∧
      (s'.tasks t).pProcess = (s.tasks t).pProcess) (hfits : SlotFits s' L t) : SlotInv s' L := by
  refine hi.change hother hnow (fun _ _ => Iff.rfl) id (fun e => ?_) ?_ (hprocs _) (fun p m h => ?_)
    (fun q h => by rwa [hprocs]) hfits
  · subst e
    exact (hlive hi.idle.1).1 rfl
  · by_cases e : t = kernelTask
    · subst e
      exact Or.inl (hlive hi.kernel).2.1
    · exact Or.inr e
  · rw [hprocs] at h
    obtain ⟨hm, hp⟩ := hi.main p m h
    refine ⟨hm, ?_⟩
    by_cases e : m = t
    · subst e
      exact (hlive hm).2.2.trans hp
    · rw [hother m e]
      exact hp

end

structure SchedInv (s : TaskStruct) (L : TaskPtr → Prop) : Prop extends SlotInv s L where
  places : Located s.nodes (fun _ => True) s.place
  waits : Located s.waits L s.waitObj

/-- the current task is one that runs -/
def Running (s : TaskStruct) : Prop := (s.tasks s.pNow).selector ≠ 0 ∧ (s.tasks s.pNow).flag = .running

/-- **The invariant**, between two calls. -/
def TaskInv (s : TaskStruct) : Prop := SchedInv s (fun t => (s.tasks t).Live) ∧ Running s

theorem TaskInv.now_live {s : TaskStruct} (hi : TaskInv s) : (s.tasks s.pNow).Live :=
  ⟨hi.2.1, fun e => by cases hi.2.2.symm.trans e⟩

/-! ## a call of the scheduler -/

theorem schedule_cases {s : TaskStruct} (hp : Located s.nodes (fun _ => True) s.place) (hw : Bool) :
    ((∀ t p, s.place t ≠ some (.ready p)) ∧
      ∃ count, ckTaskSchedule_internal s hw = some (false, { s with executeCount := count })) ∨
    ∃ t p count, s.place t = some (.ready p) ∧ ckTaskSchedule_internal s hw = some (true, switchTo { s with
      nodes := ckLinkedListErase s.nodes (.ready p) t, executeCount := count } t hw) := by
  obtain ⟨c, hc, hmem⟩ := hp
  obtain ⟨h1, h2⟩ := schedule_pick hc (fun _ => trivial) hw
  rcases hpick : Fair.pick TaskPriority.all (dispatcher s c) with ⟨_ | p, count⟩
  · refine Or.inl ⟨fun t p ht => ?_, count, h1 count hpick⟩
    have hnil : c (.ready p) = [] := Fair.pick_none_empty all_nodup hpick p (mem_all p)
    have := (hmem (.ready p) trivial t).mpr ht
    rw [hnil] at this
    exact absurd this List.not_mem_nil
  · obtain ⟨t, ts, hq, e⟩ := h2 p count hpick
    exact Or.inr ⟨t, p, count, (hmem (.ready p) trivial t).mp (hq ▸ List.mem_cons_self), e⟩

/-- the state after the current task has given way to `t` -/
structure Switched (s : TaskStruct) (t : TaskPtr) (hw : Bool) (s' : TaskStruct) : Prop where
  tasks : ∃ cpu : TaskPtr → Nat,
    s'.tasks = fun j => { s.tasks j with flag := switchFlag s t j, usedCpuTime := cpu j }
  processes : ∃ cpu : ProcPtr → Nat, s'.processes = fun p => { s.processes p with usedCpuTime := cpu p }
  now : s'.pNow = t
  ts : s'.ts = (decide (some t ≠ s.pLastTaskUsedFPU) || hw)
  waits : s'.waits = s.waits
  threads : s'.threads = s.threads
  children : s'.children = s.children
  pages : s'.pages = s.pages
  last : s'.pLastTaskUsedFPU = s.pLastTaskUsedFPU
  fpu : s'.fpu = s.fpu

theorem switched_switchTo (s : TaskStruct) (h : Heap SchedList TaskPtr) (count : TaskPriority → Nat)
    (t : TaskPtr) (hw : Bool) :
    Switched s t hw (switchTo { s with nodes := h, executeCount := count } t hw) ∧
      (switchTo { s with nodes := h, executeCount := count } t hw).nodes
        = putBackNodes { s with nodes := h, executeCount := count } := by
  obtain ⟨cpu, cpu', e⟩ := switchTo_eq { s with nodes := h, executeCount := count } t hw
  rw [e]
  exact ⟨⟨⟨cpu, rfl⟩, ⟨cpu', rfl⟩, rfl, rfl, rfl, rfl, rfl, rfl, rfl, rfl⟩, rfl⟩

theorem Switched.exit_iff {s s' : TaskStruct} {t : TaskPtr} {p : TaskPriority} {hw : Bool} (hs : Switched s t hw s')
    (ht : s.place t = some (.ready p)) (j : TaskPtr) : (s'.tasks j).selector = (s.tasks j).selector ∧
      ((s'.tasks j).flag = .waitForExit ↔ (s.tasks j).flag = .waitForExit) := by
  obtain ⟨cpu, htasks⟩ := hs.tasks
  have hne : (s.tasks t).flag ≠ .waitForExit := by
    rw [(ready_of_place ht).2]
    exact fun h => by cases h
  rw [htasks]
  exact ⟨rfl, switchFlag_exit hne⟩

theorem Switched.fits {s s' : TaskStruct} {L : TaskPtr → Prop} {t : TaskPtr} {hw : Bool} (hs : Switched s t hw s')
    (hi : SlotInv s L) (ht : (s.tasks t).flag = .ready) (j : TaskPtr) : SlotFits s' L j := by
  obtain ⟨cpu, htasks⟩ := hs.tasks
  obtain ⟨cpu', hprocs⟩ := hs.processes
  have h := hi.fits j
  have hflag : (s'.tasks j).flag = switchFlag s t j := by rw [htasks]
  have hsel : (s'.tasks j).selector = (s.tasks j).selector := by rw [htasks]
  have hwo : (s'.tasks j).waitObj = (s.tasks j).waitObj := by rw [htasks]
  have hproc : (s'.tasks j).pProcess = (s.tasks j).pProcess := by rw [htasks]
  have hpar : ∀ p, (s'.processes p).pParentProcess = (s.processes p).pParentProcess := fun p => by rw [hprocs]
  -- `t` was READY and waits for nobody, and so is the task that gives way
  have hno : ∀ f, (s.tasks j).flag = f → f ≠ .wait → ∀ v, (s'.tasks j).waitObj ≠ some v := by
    intro f hf hne v hv
    exact hne (hf.symm.trans (h.waitObj v (hwo ▸ hv)).2.2)
  exact {
    live hl := by
      obtain ⟨hs', hf⟩ := h.live hl
      refine ⟨hsel.trans_ne hs', ?_⟩
      rw [hflag]
      rcases switchFlag_cases s t j with ⟨_, e⟩ | ⟨_, _, _, e⟩ | ⟨_, e, _⟩
      · rw [e]
        exact fun h => by cases h
      · rw [e]
        exact fun h => by cases h
      · rwa [e]
    waitObj v hv := by
      rcases switchFlag_cases s t j with ⟨e, _⟩ | ⟨_, _, hr, _⟩ | ⟨_, e, _⟩
      · exact absurd hv (hno _ (e ▸ ht) (fun h => by cases h) v)
      · exact absurd hv (hno _ hr (fun h => by cases h) v)
      · obtain ⟨hl, hs', hf⟩ := h.waitObj v (hwo ▸ hv)
        exact ⟨hl, hsel.trans_ne hs', hflag.trans (e.trans hf)⟩
    waiting hs' hf := by
      rw [hflag] at hf
      rw [hwo]
      rcases switchFlag_cases s t j with ⟨_, e⟩ | ⟨_, _, _, e⟩ | ⟨_, e, _⟩ <;> rw [e] at hf
      · cases hf
      · cases hf
      · exact h.waiting (hsel ▸ hs') hf
    single hs' hf := by
      rw [hflag] at hf
      rw [hs.now]
      rcases switchFlag_cases s t j with ⟨e, _⟩ | ⟨_, _, _, e⟩ | ⟨_, e, hstop⟩
      · exact e
      · rw [e] at hf
        cases hf
      · rw [e] at hf
        exact absurd hf (hstop (h.single (hsel ▸ hs') hf))
    proc hl := by
      rw [hproc]
      exact h.proc hl
    parent p hs' hp := by
      rw [hpar]
      exact h.parent p (hsel ▸ hs') (hproc ▸ hp)
    exit hs' hf := by
      rw [hflag] at hf
      rw [hproc]
      rcases switchFlag_cases s t j with ⟨_, e⟩ | ⟨_, _, _, e⟩ | ⟨_, e, _⟩ <;> rw [e] at hf
      · cases hf
      · cases hf
      · exact h.exit (hsel ▸ hs') hf
  }

theorem SlotInv.switched {s s' : TaskStruct} {L : TaskPtr → Prop} (hi : SlotInv s L) {t : TaskPtr} {hw : Bool}
    (ht : (s.tasks t).selector ≠ 0 ∧ (s.tasks t).flag = .ready) (hs : Switched s t hw s') :
    SlotInv s' L ∧ Running s' := by
  obtain ⟨cpu, htasks⟩ := hs.tasks
  obtain ⟨cpu', hprocs⟩ := hs.processes
  have hfits := hs.fits hi ht.2
  have hflag : ∀ j, (s'.tasks j).flag = switchFlag s t j := fun j => by rw [htasks]
  have hsel : ∀ j, (s'.tasks j).selector = (s.tasks j).selector := fun j => by rw [htasks]
  have hproc : ∀ j, (s'.tasks j).pProcess = (s.tasks j).pProcess := fun j => by rw [htasks]
  have hid : ∀ j, (s'.tasks j).id = (s.tasks j).id := fun j => by rw [htasks]
  have hidle : (s'.tasks idleTask).flag = .ready ∨ (s'.tasks idleTask).flag = .running := by
    rw [hflag]
    rcases switchFlag_cases s t idleTask with ⟨_, e⟩ | ⟨_, _, _, e⟩ | ⟨_, e, _⟩
    · exact Or.inr e
    · exact Or.inl e
    · rw [e]
      exact hi.idle.2
  refine ⟨.ofFits hfits hi.kernel ⟨hi.idle.1, hidle⟩ (fun p m h => ?_) ?_ ?_ ?_ ?_, ?_⟩
  · have hp : (s.processes p).pMainThread = some m := by
      rw [← h, hprocs]
    rw [hproc]
    exact hi.main p m hp
  · rw [hprocs]
    exact hi.main0
  · rw [hprocs]
    exact hi.dir0
  · rw [hid, hid, hprocs]
    exact hi.ids
  · rw [hproc]
    exact hi.idle0
  · unfold Running
    rw [hs.now, hflag, hsel]
    exact ⟨ht.1, if_pos rfl⟩

/-- what the lists hold after the switch to the READY task `t` -/
theorem switched_places {s : TaskStruct} {t : TaskPtr} {p : TaskPriority} {count : TaskPriority → Nat}
    {s' : TaskStruct} {hw : Bool} (hp : Located s.nodes (fun _ => True) s.place)
    (ht : s.place t = some (.ready p)) (hused : (s.tasks s.pNow).selector ≠ 0)
    (hnow : (s.tasks s.pNow).flag ≠ .ready) (hs : Switched s t hw s')
    (hn : s'.nodes = putBackNodes { s with
      nodes := ckLinkedListErase s.nodes (.ready p) t, executeCount := count }) :
    Located s'.nodes (fun _ => True) s'.place := by
  obtain ⟨cpu, htasks⟩ := hs.tasks
  have hne : t ≠ s.pNow := by
    rintro rfl
    exact hnow (ready_of_place ht).2
  have hsel : ∀ j, (s'.tasks j).selector = (s.tasks j).selector := fun j => by rw [htasks]
  have hprio : ∀ j, (s'.tasks j).priority = (s.tasks j).priority := fun j => by rw [htasks]
  have hflag : ∀ j, (s'.tasks j).flag = switchFlag s t j := fun j => by rw [htasks]
  have htaken : s'.place t = none := place_running (by rw [hflag]; exact if_pos rfl)
  have hkeep : ∀ j, j ≠ t → switchFlag s t j = (s.tasks j).flag → s'.place j = s.place j := by
    intro j _ hf
    show Task.place _ = Task.place _
    unfold Task.place
    rw [hsel, hprio, hflag, hf]
  have herase := hp.erase trivial ht
  rw [hn]
  unfold putBackNodes
  by_cases hr : (s.tasks s.pNow).flag = .running
  · have hnone : ∀ l, True → Function.update s.place t none s.pNow ≠ some l := by
      intro l _ h
      rw [Function.update_of_ne hne.symm, TaskStruct.place, place_running hr] at h
      cases h
    rw [if_pos hr]
    refine (herase.push trivial hnone).congr fun l _ j => ?_
    have hput : s'.place s.pNow = some (.ready (s.tasks s.pNow).priority) := by
      have hf : (s'.tasks s.pNow).flag = .ready := by
        rw [hflag]
        exact (if_neg hne.symm).trans (if_pos ⟨rfl, hr⟩)
      show (s'.tasks s.pNow).place = _
      rw [place_ready ((hsel _).trans_ne hused) hf, hprio]
    by_cases e : j = s.pNow
    · rw [e, Function.update_self, hput]
    · rw [Function.update_of_ne e]
      by_cases et : j = t
      · rw [et, Function.update_self, htaken]
      · rw [Function.update_of_ne et, hkeep j et ((if_neg et).trans (if_neg fun h => e h.1))]
  · rw [if_neg hr]
    refine herase.congr fun l _ j => ?_
    by_cases et : j = t
    · rw [et, Function.update_self, htaken]
    · rw [Function.update_of_ne et, hkeep j et ((if_neg et).trans (if_neg fun (h : j = s.pNow ∧ _) => hr (h.1 ▸ h.2)))]

/-- **A call of the scheduler** finds no READY task or switches to one; the current task may be one that
runs or one that has just left the processor. -/
theorem SchedInv.schedule {s : TaskStruct} {L : TaskPtr → Prop} (hi : SchedInv s L)
    (hused : (s.tasks s.pNow).selector ≠ 0) (hnow : (s.tasks s.pNow).flag ≠ .ready) (hw : Bool) :
    ((∀ t p, s.place t ≠ some (.ready p)) ∧
      ∃ count, ckTaskSchedule_internal s hw = some (false, { s with executeCount := count })) ∨
    ∃ t p s', s.place t = some (.ready p) ∧ ckTaskSchedule_internal s hw = some (true, s') ∧
      Switched s t hw s' ∧ SchedInv s' L ∧ Running s' := by
  rcases schedule_cases hi.places hw with hnone | ⟨t, p, count, ht, e⟩
  · exact Or.inl hnone
  · right
    obtain ⟨hs, hnodes⟩ := switched_switchTo s (ckLinkedListErase s.nodes (.ready p) t) count t hw
    refine ⟨t, p, _, ht, e, hs, ?_⟩
    obtain ⟨hslot, hrun⟩ := hi.toSlotInv.switched (ready_of_place ht) hs
    refine ⟨⟨hslot, switched_places hi.places ht hused hnow hs hnodes, ?_⟩, hrun⟩
    obtain ⟨_, htasks⟩ := hs.tasks
    rw [hs.waits]
    exact hi.waits.congr fun l _ j => by rw [TaskStruct.waitObj, TaskStruct.waitObj, htasks]

end Clubcos
