import Clubcos.Task.Run

/-!
# Suspending and resuming a task

`Queued s c` is what the scheduler relies on: each task is in the list that its flag names, and the current task is the
one that runs.

* `resume_queued`     a task that is resumed goes to the end of its `ReadyList`;
* `Suspended`         what a call of `ckTaskSuspend` is to do;
* `suspend_current`   the current task suspends itself, and a READY task gets the processor;
* `suspend_ready_lists`   what suspending a READY task does: the node of the *current* task goes to `WaitList`;
* `suspend_iff`       **suspend and resume do their work exactly for the current task**;
* `suspended_kernel`  the kernel task suspends another task and is in `WaitList` itself.
-/

set_option linter.unusedVariables false
set_option linter.unusedSectionVars false

namespace Clubcos
open Word

/-- the scheduler lists hold the tasks `c` -/
structure Queued (s : TaskStruct) (c : SchedList → List TaskPtr) : Prop where
  lists : Lists s.nodes (fun _ => True) c
  mem : ∀ l t, t ∈ c l ↔ s.place t = some l
  running : Running s
  single : ∀ t, (s.tasks t).selector ≠ 0 → (s.tasks t).flag = .running → t = s.pNow

section
variable {s : TaskStruct} {c : SchedList → List TaskPtr} (hi : Queued s c)
include hi

theorem Queued.located : Located s.nodes (fun _ => True) s.place := ⟨c, hi.lists, fun l _ t => hi.mem l t⟩

theorem Queued.unique {c' : SchedList → List TaskPtr} (hc : Lists s.nodes (fun _ => True) c') : c = c' :=
  funext fun l => hi.lists.unique hc trivial

theorem Queued.now_free (l : SchedList) : s.pNow ∉ c l := by
  intro h
  have hplace := (hi.mem l s.pNow).mp h
  rw [TaskStruct.place, place_running hi.running.2] at hplace
  cases hplace

end

theorem queued_of_located {s : TaskStruct} (hl : Located s.nodes (fun _ => True) s.place) (hr : Running s)
    (hs : ∀ t, (s.tasks t).selector ≠ 0 → (s.tasks t).flag = .running → t = s.pNow) : ∃ c, Queued s c := by
  obtain ⟨c, hc, hmem⟩ := hl
  exact ⟨c, hc, fun l t => hmem l trivial t, hr, hs⟩

/-- every state between two calls is one -/
theorem TaskInv.queued {s : TaskStruct} (hi : TaskInv s) : ∃ c, Queued s c :=
  queued_of_located hi.1.places hi.2 hi.1.single

/-! ## resume -/

/-- the lists after `t` was resumed -/
def resumedLists (c : SchedList → List TaskPtr) (t : TaskPtr) (p : TaskPriority) : SchedList → List TaskPtr :=
  Function.update (Function.update c .wait ((c .wait).erase t)) (.ready p) (c (.ready p) ++ [t])

def resumed (s : TaskStruct) (t : TaskPtr) : TaskStruct :=
  { s with
    tasks := Function.update s.tasks t { s.tasks t with flag := .ready }
    nodes := ckLinkedListPushBack_lockfree (ckLinkedListErase s.nodes .wait t) (.ready (s.tasks t).priority) t }

theorem resumed_self {s : TaskStruct} {t : TaskPtr} : (resumed s t).tasks t = { s.tasks t with flag := .ready } :=
  Function.update_self _ _ _

theorem resumed_ne {s : TaskStruct} {t j : TaskPtr} (e : j ≠ t) : (resumed s t).tasks j = s.tasks j :=
  Function.update_of_ne e _ _

theorem resume_eq {s : TaskStruct} {t : TaskPtr} (hf : (s.tasks t).flag = .wait) :
    ckTaskResume_byptr s t = (true, resumed s t) := by
  unfold ckTaskResume_byptr
  rw [if_pos hf]
  simp only [resumed, TaskStruct.setTask, Function.update_self]

theorem resume_lists {h : Heap SchedList TaskPtr} {c : SchedList → List TaskPtr} (hc : Lists h (fun _ => True) c)
    {t : TaskPtr} (ht : t ∈ c .wait) (p : TaskPriority) : Lists
      (ckLinkedListPushBack_lockfree (ckLinkedListErase h .wait t) (.ready p) t) (fun _ => True) (resumedLists c t p) := by
  have hne : SchedList.ready p ≠ .wait := fun e => by cases e
  have hmove := hc.move (k := .ready p) trivial trivial ht
  rwa [Function.update_of_ne hne] at hmove

theorem resume_queued {s : TaskStruct} {c : SchedList → List TaskPtr} (hi : Queued s c) {t : TaskPtr}
    (hs : (s.tasks t).selector ≠ 0) (hf : (s.tasks t).flag = .wait) :
    Queued (resumed s t) (resumedLists c t (s.tasks t).priority) := by
  have hplace : s.place t = some .wait := place_wait hs hf
  have hput : (resumed s t).place t = some (.ready (s.tasks t).priority) := by
    rw [TaskStruct.place, resumed_self]
    exact place_ready hs rfl
  have hne : s.pNow ≠ t := by
    intro e
    have hrun := hi.running.2
    rw [e, hf] at hrun
    cases hrun
  have hloc : Located (resumed s t).nodes (fun _ => True) (resumed s t).place :=
    hi.located.toReady hplace (fun _ e => resumed_ne e) hput rfl
  have hrun : Running (resumed s t) := by
    unfold Running
    rw [show (resumed s t).tasks (resumed s t).pNow = s.tasks s.pNow from resumed_ne hne]
    exact hi.running
  have hsingle : ∀ j, ((resumed s t).tasks j).selector ≠ 0 → ((resumed s t).tasks j).flag = .running → j = s.pNow := by
    intro j hsel hflag
    by_cases e : j = t
    · rw [e, resumed_self] at hflag
      cases hflag
    · rw [resumed_ne e] at hsel hflag
      exact hi.single j hsel hflag
  obtain ⟨c', hi'⟩ := queued_of_located hloc hrun hsingle
  have hc := resume_lists hi.lists ((hi.mem _ _).mpr hplace) (s.tasks t).priority
  rw [← hi'.unique hc]
  exact hi'

/-! ## suspend -/

/-- `t` has the flag WAIT, and the node of the current task is at the end of `WaitList`; `h` are the lists before that -/
def suspending (s : TaskStruct) (t : TaskPtr) (h : Heap SchedList TaskPtr) : TaskStruct :=
  { s with
    tasks := Function.update s.tasks t { s.tasks t with flag := .wait }
    nodes := ckLinkedListPushBack_lockfree h .wait s.pNow }

section
variable {s : TaskStruct} {t : TaskPtr} (h : Heap SchedList TaskPtr)

theorem suspending_self : (suspending s t h).tasks t = { s.tasks t with flag := .wait } := Function.update_self _ _ _

theorem suspending_ne {j : TaskPtr} (e : j ≠ t) : (suspending s t h).tasks j = s.tasks j := Function.update_of_ne e _ _

/-- what a slot keeps -/
theorem suspending_keep (j : TaskPtr) : ((suspending s t h).tasks j).selector = (s.tasks j).selector ∧
    ((suspending s t h).tasks j).id = (s.tasks j).id ∧ ((suspending s t h).tasks j).priority = (s.tasks j).priority := by
  by_cases e : j = t
  · rw [e, suspending_self]
    exact ⟨rfl, rfl, rfl⟩
  · rw [suspending_ne h e]
    exact ⟨rfl, rfl, rfl⟩

end

theorem suspend_ready {s : TaskStruct} {t : TaskPtr} (hf : (s.tasks t).flag = .ready) (hw : Bool) :
    ckTaskSuspend_byptr s t hw =
      some (true, suspending s t (ckLinkedListErase s.nodes (.ready (s.tasks t).priority) t)) := by
  unfold ckTaskSuspend_byptr
  rw [hf]
  rfl

theorem suspend_running {s : TaskStruct} {t : TaskPtr} (hf : (s.tasks t).flag = .running) (hw : Bool) :
    ckTaskSuspend_byptr s t hw = (ckTaskSchedule_internal (suspending s t s.nodes) hw).map fun x => (true, x.2) := by
  unfold ckTaskSuspend_byptr
  rw [hf]
  show ((ckTaskSchedule_internal (suspending s t s.nodes) hw).bind fun x => some (true, x.2)) = _
  cases ckTaskSchedule_internal (suspending s t s.nodes) hw <;> rfl

/-- what a call of `ckTaskSuspend` for `t` is to do; `c` and `c'` are the lists before and after it -/
structure Suspended (s : TaskStruct) (c : SchedList → List TaskPtr) (t : TaskPtr) (s' : TaskStruct)
    (c' : SchedList → List TaskPtr) : Prop where
  queued : Queued s' c'
  flag : (s'.tasks t).flag = .wait
  once : (c' .wait).count t = 1
  notReady : ∀ p, t ∉ c' (.ready p)
  other : t ≠ s.pNow → ∀ u l, u ≠ t → (u ∈ c' l ↔ u ∈ c l)
  current : t = s.pNow → (s.tasks s'.pNow).flag = .ready ∧ ∀ u l, u ≠ t → u ≠ s'.pNow → (u ∈ c' l ↔ u ∈ c l)

/-- `ckTaskSuspend` does its work, and so does `ckTaskResume` behind it -/
def SuspendsResumes (s : TaskStruct) (c : SchedList → List TaskPtr) (taskId : Nat) (t : TaskPtr) (hw : Bool) : Prop :=
  ∃ s' c' s'', ckTaskSuspend s taskId hw = some (true, s') ∧ Suspended s c t s' c' ∧
    ckTaskResume s' taskId = some (true, s'') ∧ Queued s'' (resumedLists c' t (s.tasks t).priority)

/-- a slot whose id stays is found again -/
theorem csGetTaskFromId_keep {s s' : TaskStruct} {id : Nat} {t : TaskPtr} (h : csGetTaskFromId s id = some t)
    (hsel : (s'.tasks t).selector = (s.tasks t).selector) (hid : (s'.tasks t).id = (s.tasks t).id)
    (hf : (s'.tasks t).flag ≠ .waitForExit) : csGetTaskFromId s' id = some t := by
  unfold csGetTaskFromId at h ⊢
  by_cases hinv : id = taskInvalidId
  · rw [if_pos hinv] at h
    cases h
  · rw [if_neg hinv] at h ⊢
    simp only [] at h ⊢
    split at h
    · rename_i hc
      cases h
      rw [hsel, hid, if_pos ⟨hc.1, hc.2.1, hf⟩]
    · cases h

section
variable {s : TaskStruct} {c : SchedList → List TaskPtr} (hi : Queued s c)
include hi

theorem suspending_located : Located (suspending s s.pNow s.nodes).nodes (fun _ => True)
    (suspending s s.pNow s.nodes).place := by
  have hput : (suspending s s.pNow s.nodes).place s.pNow = some .wait := by
    rw [TaskStruct.place, suspending_self]
    exact place_wait hi.running.1 rfl
  have hno : ∀ l, True → s.place s.pNow ≠ some l := fun l _ h => hi.now_free l ((hi.mem l _).mpr h)
  refine (hi.located.push trivial hno).congr fun l _ j => ?_
  by_cases e : j = s.pNow
  · rw [e, Function.update_self, hput]
  · rw [Function.update_of_ne e, TaskStruct.place, TaskStruct.place, suspending_ne s.nodes e]

/-- the lists after another task got the processor from one that waits -/
theorem Suspended.switched {s' : TaskStruct} {u : TaskPtr} {p : TaskPriority} {hw : Bool} (hu : s.place u = some (.ready p))
    (hs : Switched (suspending s s.pNow s.nodes) u hw s') (hloc : Located s'.nodes (fun _ => True) s'.place) :
    ∃ c', Suspended s c s.pNow s' c' := by
  obtain ⟨cpu, htasks⟩ := hs.tasks
  obtain ⟨hsel, hready⟩ := ready_of_place hu
  have hne : s.pNow ≠ u := fun e => by
    have hrun := hi.running.2
    rw [e, hready] at hrun
    cases hrun
  -- the flags: `u` runs, the current task waits, and the others keep theirs
  have hflag : ∀ j, (s'.tasks j).flag = if j = u then .running else if j = s.pNow then .wait else (s.tasks j).flag := by
    intro j
    rw [htasks]
    show switchFlag _ u j = _
    unfold switchFlag
    by_cases eu : j = u
    · rw [if_pos eu, if_pos eu]
    · rw [if_neg eu, if_neg eu]
      by_cases en : j = s.pNow
      · rw [en, suspending_self, if_neg (fun h => by cases h.2), if_pos rfl]
      · rw [if_neg (fun h => en h.1), suspending_ne s.nodes en, if_neg en]
  have hkeep : ∀ j, (s'.tasks j).selector = (s.tasks j).selector ∧ (s'.tasks j).id = (s.tasks j).id ∧
      (s'.tasks j).priority = (s.tasks j).priority := by
    intro j
    rw [htasks]
    exact suspending_keep s.nodes j
  have hother : ∀ j, j ≠ s.pNow → j ≠ u → s'.place j = s.place j := by
    intro j en eu
    show Task.place _ = Task.place _
    unfold Task.place
    rw [(hkeep j).1, (hkeep j).2.2, hflag, if_neg eu, if_neg en]
  have hrun : Running s' := by
    unfold Running
    rw [hs.now, hflag, if_pos rfl, (hkeep u).1]
    exact ⟨hsel, rfl⟩
  have hsingle : ∀ j, (s'.tasks j).selector ≠ 0 → (s'.tasks j).flag = .running → j = s'.pNow := by
    intro j hj hf
    rw [hflag] at hf
    rw [hs.now]
    by_contra eu
    rw [if_neg eu] at hf
    by_cases en : j = s.pNow
    · rw [if_pos en] at hf
      cases hf
    · rw [if_neg en] at hf
      exact en (hi.single j ((hkeep j).1 ▸ hj) hf)
  obtain ⟨c', hi'⟩ := queued_of_located hloc hrun hsingle
  have hwait : (s'.tasks s.pNow).flag = .wait := by
    rw [hflag, if_neg hne, if_pos rfl]
  have hplace : s'.place s.pNow = some .wait := place_wait ((hkeep s.pNow).1.trans_ne hi.running.1) hwait
  refine ⟨c', hi', hwait, ?_, fun q h => ?_, fun h => absurd rfl h, fun _ => ⟨?_, fun j l en eu => ?_⟩⟩
  · exact List.count_eq_one_of_mem (hi'.lists.nodup .wait trivial) ((hi'.mem _ _).mpr hplace)
  · have hq := (hi'.mem _ _).mp h
    rw [hplace] at hq
    cases hq
  · rw [hs.now]
    exact hready
  · rw [hs.now] at eu
    rw [hi'.mem, hi.mem, hother j en eu]

/-- **The current task suspends itself**, as long as there is a READY task. -/
theorem suspend_current (hr : ∃ u, (s.tasks u).selector ≠ 0 ∧ (s.tasks u).flag = .ready) (hw : Bool) :
    ∃ s' c', ckTaskSuspend_byptr s s.pNow hw = some (true, s') ∧ Suspended s c s.pNow s' c' ∧
      ∃ u p, (suspending s s.pNow s.nodes).place u = some (.ready p) ∧ Switched (suspending s s.pNow s.nodes) u hw s' := by
  have hself := suspending_self (s := s) (t := s.pNow) s.nodes
  have hplaces := suspending_located hi
  have hne : ∀ u, (s.tasks u).flag = .ready → u ≠ s.pNow := fun u hf e => by
    have hrun := hi.running.2
    rw [← e, hf] at hrun
    cases hrun
  have hkeep : ∀ u, u ≠ s.pNow → (suspending s s.pNow s.nodes).place u = s.place u := fun u e => by
    rw [TaskStruct.place, TaskStruct.place, suspending_ne s.nodes e]
  rw [suspend_running hi.running.2]
  rcases schedule_cases hplaces hw with ⟨hnone, _⟩ | ⟨u, p, count, hu, e⟩
  · obtain ⟨u, hs, hf⟩ := hr
    exact absurd ((hkeep u (hne u hf)).trans (place_ready hs hf)) (hnone u _)
  · have hu' : u ≠ s.pNow := by
      rintro rfl
      have hflag := (ready_of_place hu).2
      rw [hself] at hflag
      cases hflag
    obtain ⟨hs, hnodes⟩ := switched_switchTo (suspending s s.pNow s.nodes)
      (ckLinkedListErase (suspending s s.pNow s.nodes).nodes (.ready p) u) count u hw
    have hused : ((suspending s s.pNow s.nodes).tasks s.pNow).selector ≠ 0 := by
      rw [hself]
      exact hi.running.1
    have hnow : ((suspending s s.pNow s.nodes).tasks s.pNow).flag ≠ .ready := by
      rw [hself]
      exact fun h => by cases h
    have hloc := switched_places hplaces hu hused hnow hs hnodes
    obtain ⟨c', hsus⟩ := Suspended.switched hi ((hkeep u hu').symm.trans hu) hs hloc
    exact ⟨_, c', congrArg (Option.map fun x => (true, x.2)) e, hsus, u, p, hu, hs⟩

/-- without a READY task the current task goes on with the flag WAIT -/
theorem suspend_alone (hr : ∀ u, (s.tasks u).selector ≠ 0 → (s.tasks u).flag ≠ .ready) (hw : Bool) :
    ∀ b s', ckTaskSuspend_byptr s s.pNow hw = some (b, s') → ¬ Running s' := by
  intro b s' h hrun
  have hself := suspending_self (s := s) (t := s.pNow) s.nodes
  rw [suspend_running hi.running.2] at h
  rcases schedule_cases (suspending_located hi) hw with ⟨_, count, e⟩ | ⟨u, p, count, hu, _⟩
  · rw [e] at h
    cases h
    have hflag : ((suspending s s.pNow s.nodes).tasks s.pNow).flag = .running := hrun.2
    rw [hself] at hflag
    cases hflag
  · obtain ⟨hsel, hf⟩ := ready_of_place hu
    by_cases e : u = s.pNow
    · rw [e, hself] at hf
      cases hf
    · rw [suspending_ne s.nodes e] at hsel hf
      exact hr u hsel hf

/-- **What suspending a READY task does to the lists**: `t` leaves its `ReadyList` and the current task enters
`WaitList`. -/
theorem suspend_ready_lists {t : TaskPtr} (hs : (s.tasks t).selector ≠ 0) (hf : (s.tasks t).flag = .ready) :
    ∃ c', Lists (suspending s t (ckLinkedListErase s.nodes (.ready (s.tasks t).priority) t)).nodes (fun _ => True) c' ∧
      c' .wait = c .wait ++ [s.pNow] := by
  have ht := (hi.mem _ _).mpr (place_ready hs hf)
  have herase := hi.lists.erase trivial ht
  have hno : ∀ l, True → s.pNow ∉ Function.update c (.ready (s.tasks t).priority)
      ((c (.ready (s.tasks t).priority)).erase t) l := by
    intro l _ hm
    by_cases e : l = .ready (s.tasks t).priority
    · rw [e, Function.update_self] at hm
      exact hi.now_free _ (List.mem_of_mem_erase hm)
    · rw [Function.update_of_ne e] at hm
      exact hi.now_free l hm
  refine ⟨_, herase.push (l := .wait) trivial hno, ?_⟩
  rw [Function.update_self, Function.update_of_ne (fun e => by cases e)]

/-- a READY task is not in `WaitList` afterwards -/
theorem suspend_other {t : TaskPtr} (hs : (s.tasks t).selector ≠ 0) (hf : (s.tasks t).flag = .ready) (hw : Bool) :
    ∀ b s' c', ckTaskSuspend_byptr s t hw = some (b, s') → ¬ Suspended s c t s' c' := by
  intro b s' c' h hsus
  rw [suspend_ready hf] at h
  cases h
  obtain ⟨c₁, hc₁, hwait⟩ := suspend_ready_lists hi hs hf
  have hin : t ∈ c' .wait := List.count_pos_iff.mp (hsus.once ▸ Nat.one_pos)
  rw [hsus.queued.unique hc₁, hwait] at hin
  rcases List.mem_append.mp hin with hm | hm
  · have hplace := (hi.mem _ _).mp hm
    rw [TaskStruct.place, place_ready hs hf] at hplace
    cases hplace
  · have hrun := hi.running.2
    rw [← List.mem_singleton.mp hm, hf] at hrun
    cases hrun

/-- **Suspend and resume** of a READY or RUNNING task do their work exactly if it is the current task and there is a READY
task to dispatch. -/
theorem suspend_iff {taskId : Nat} (hid : taskId ≠ kernelTaskId ∧ taskId ≠ idleTaskId) {t : TaskPtr}
    (ht : csGetTaskFromId s taskId = some t) (hf : (s.tasks t).flag = .ready ∨ (s.tasks t).flag = .running)
    (hw : Bool) : SuspendsResumes s c taskId t hw ↔
      t = s.pNow ∧ ∃ u, (s.tasks u).selector ≠ 0 ∧ (s.tasks u).flag = .ready := by
  have hlive := (csGetTaskFromId_some ht).1
  have hcall : ckTaskSuspend s taskId hw = ckTaskSuspend_byptr s t hw := by
    unfold ckTaskSuspend
    rw [if_pos hid, ht]
  unfold SuspendsResumes
  rw [hcall]
  constructor
  · rintro ⟨s', c', s'', e, hsus, -⟩
    have hnow : t = s.pNow := by
      rcases hf with hf | hf
      · exact absurd hsus (suspend_other hi hlive.1 hf hw _ _ _ e)
      · exact hi.single t hlive.1 hf
    refine ⟨hnow, ?_⟩
    by_contra hnone
    rw [hnow] at e
    exact suspend_alone hi (fun u hs hf => hnone ⟨u, hs, hf⟩) hw _ _ e hsus.queued.running
  · rintro ⟨rfl, hr⟩
    obtain ⟨s', c', e, hsus, u, p, _, hs⟩ := suspend_current hi hr hw
    have hflag := hsus.flag
    have hkeep : (s'.tasks s.pNow).selector = (s.tasks s.pNow).selector ∧
        (s'.tasks s.pNow).id = (s.tasks s.pNow).id ∧ (s'.tasks s.pNow).priority = (s.tasks s.pNow).priority := by
      obtain ⟨cpu, htasks⟩ := hs.tasks
      rw [htasks]
      exact suspending_keep s.nodes s.pNow
    obtain ⟨hsel, hid', hprio⟩ := hkeep
    have hres : ckTaskResume s' taskId = some (true, resumed s' s.pNow) := by
      have hget := csGetTaskFromId_keep ht hsel hid' (fun h => by
        rw [hflag] at h
        cases h)
      unfold ckTaskResume
      rw [if_pos hid, hget]
      exact congrArg some (resume_eq hflag)
    refine ⟨s', c', _, e, hsus, hres, ?_⟩
    rw [← hprio]
    exact resume_queued hsus.queued (hsel.trans_ne hlive.1) hflag

end

/-- a task is created in the kernel process -/
def createRun : List Op := [.taskCreate 0 0 0 .normal]

theorem createRun_some : (execAll 0 Op.Proper createRun bootState).isSome := by decide +kernel

def createState : TaskStruct := (execAll 0 Op.Proper createRun bootState).get createRun_some

theorem createState_inv : TaskInv createState :=
  (execAll_reach (.boot 0 fun _ => 0) (Option.some_get createRun_some).symm).inv fun _ _ h => h

/-- and gets the processor -/
def dispatchRun : List Op := createRun ++ [.schedule]

theorem dispatchRun_some : (execAll 0 Op.Proper dispatchRun bootState).isSome := by decide +kernel

def dispatchState : TaskStruct := (execAll 0 Op.Proper dispatchRun bootState).get dispatchRun_some

theorem dispatchState_inv : TaskInv dispatchState :=
  (execAll_reach (.boot 0 fun _ => 0) (Option.some_get dispatchRun_some).symm).inv fun _ _ h => h

theorem suspend_iff_dispatchRun : ∃ c, Queued dispatchState c ∧ SuspendsResumes dispatchState c 4098 2 true := by
  obtain ⟨c, hi⟩ := dispatchState_inv.queued
  have hready : (dispatchState.tasks kernelTask).selector ≠ 0 ∧ (dispatchState.tasks kernelTask).flag = .ready := by
    decide +kernel
  refine ⟨c, hi, (suspend_iff hi (by decide) (by decide +kernel) (Or.inr (by decide +kernel)) true).mpr ⟨?_, ?_⟩⟩
  · decide +kernel
  · exact ⟨kernelTask, hready⟩

/-- **The kernel task suspends another task**: it is itself in `WaitList` from then on, while it runs, and the other task
is in no list. -/
theorem suspended_kernel : ∃ c, Queued createState c ∧ csGetTaskFromId createState 4098 = some 2 ∧
    (createState.tasks 2).flag = .ready ∧ ¬ SuspendsResumes createState c 4098 2 true ∧
    ∃ s', ckTaskSuspend createState 4098 true = some (true, s') ∧ s'.pNow = kernelTask ∧
      s'.nodes.pNext (.dummy .wait) = .node kernelTask ∧ s'.nodes.pNext (.node kernelTask) = .dummy .wait := by
  obtain ⟨c, hi⟩ := createState_inv.queued
  have hf : (createState.tasks 2).selector ≠ 0 ∧ (createState.tasks 2).flag = .ready := by decide +kernel
  have hcall : ckTaskSuspend createState 4098 true = ckTaskSuspend_byptr createState 2 true := by
    have hget : csGetTaskFromId createState 4098 = some 2 := by decide +kernel
    unfold ckTaskSuspend
    rw [if_pos (by decide), hget]
  refine ⟨c, hi, by decide +kernel, hf.2, ?_, _, hcall.trans (suspend_ready hf.2 true), ?_, ?_, ?_⟩
  · rintro ⟨s', c', s'', e, hsus, -⟩
    exact suspend_other hi hf.1 hf.2 true _ _ _ (hcall.symm.trans e) hsus
  all_goals decide +kernel

end Clubcos
