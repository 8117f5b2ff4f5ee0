import Clubcos.Task.Join
import Clubcos.Task.Suspend

/-!
# Changing the priority of a task

A task that is READY is in the list of its priority, so a change of priority moves it to another list; the priority of
the current task and of a waiting one is only a number.

* `reprioritized`        the slot with the new priority, over the lists `h`;
* `changePriority_spec`  **what a call does**: a READY task goes to the end of `ReadyList[priority]` if that is another
  list, and nothing else changes;
* `changePriority_wait`  a WAIT task that is given another priority goes to a `ReadyList` with its flag as it was;
* `priority_kept`        two READY tasks of one priority: the first one stays in front.
-/

set_option linter.unusedVariables false
set_option linter.unusedSectionVars false

namespace Clubcos
open Word Ring

/-- the lists after `t` went from `ReadyList[q]` to the end of `ReadyList[p]` -/
def movedLists (c : SchedList → List TaskPtr) (t : TaskPtr) (q p : TaskPriority) : SchedList → List TaskPtr :=
  Function.update (Function.update c (.ready q) ((c (.ready q)).erase t)) (.ready p)
    (Function.update c (.ready q) ((c (.ready q)).erase t) (.ready p) ++ [t])

/-- `t` has the priority `p`; `h` are the lists -/
def reprioritized (s : TaskStruct) (t : TaskPtr) (p : TaskPriority) (h : Heap SchedList TaskPtr) : TaskStruct :=
  { s with tasks := Function.update s.tasks t { s.tasks t with priority := p }, nodes := h }

/-- the lists behind a move between two `ReadyList`s, whatever list the node is in -/
def movedNodes (s : TaskStruct) (t : TaskPtr) (p : TaskPriority) : Heap SchedList TaskPtr :=
  ckLinkedListPushBack_lockfree (ckLinkedListErase s.nodes (.ready (s.tasks t).priority) t) (.ready p) t

/-! ## the three ways of a call -/

section
variable {s : TaskStruct} {taskId : Nat} {t : TaskPtr} {p : TaskPriority}

theorem changePriority_current (ht : csGetTaskFromId s taskId = some t) (hn : t = s.pNow) :
    ckTaskChangePriority s taskId p = (true, reprioritized s t p s.nodes) := by
  unfold ckTaskChangePriority
  rw [ht]
  exact if_pos hn

theorem changePriority_moved (ht : csGetTaskFromId s taskId = some t) (hn : t ≠ s.pNow)
    (hp : (s.tasks t).priority ≠ p) :
    ckTaskChangePriority s taskId p = (true, reprioritized s t p (movedNodes s t p)) := by
  unfold ckTaskChangePriority
  rw [ht]
  simp only []
  rw [if_neg hn, if_pos hp]
  rfl

/-- the priority it has already -/
theorem changePriority_same (ht : csGetTaskFromId s taskId = some t) (hn : t ≠ s.pNow) :
    ckTaskChangePriority s taskId (s.tasks t).priority = (true, s) := by
  unfold ckTaskChangePriority
  rw [ht]
  simp only []
  rw [if_neg hn, if_neg (fun h => h rfl)]

theorem reprioritized_same (s : TaskStruct) (t : TaskPtr) : reprioritized s t (s.tasks t).priority s.nodes = s := by
  unfold reprioritized
  rw [Function.update_eq_self]

end

/-! ## the lists -/

/-- a list of `movedLists` holds `t` exactly if it is the new one, and the others what they held -/
theorem mem_movedLists {h : Heap SchedList TaskPtr} {c : SchedList → List TaskPtr} (hc : Lists h (fun _ => True) c)
    {t : TaskPtr} {q : TaskPriority} (ht : t ∈ c (.ready q)) (p : TaskPriority) (l : SchedList) (u : TaskPtr) :
    u ∈ movedLists c t q p l ↔ if u = t then l = .ready p else u ∈ c l := by
  have herased : u ∈ Function.update c (.ready q) ((c (.ready q)).erase t) l ↔ u ≠ t ∧ u ∈ c l :=
    hc.mem_erased trivial trivial ht u
  have hmoved : u ∈ movedLists c t q p l ↔
      u ∈ Function.update c (.ready q) ((c (.ready q)).erase t) l ∨ l = .ready p ∧ u = t := by
    unfold movedLists
    by_cases e : l = .ready p
    · rw [e, Function.update_self, List.mem_append, List.mem_singleton]
      simp only [true_and]
    · rw [Function.update_of_ne e]
      exact ⟨Or.inl, fun h => h.resolve_right fun h => e h.1⟩
  rw [hmoved, herased]
  by_cases e : u = t
  · simp only [e, ne_eq, not_true_eq_false, false_and, and_true, false_or, if_pos]
  · simp only [e, ne_eq, not_false_eq_true, true_and, and_false, or_false, if_false]

/-! ## what a call does -/

section
variable {s : TaskStruct} {t : TaskPtr} {p : TaskPriority} {h : Heap SchedList TaskPtr}

theorem reprioritized_self : (reprioritized s t p h).tasks t = { s.tasks t with priority := p } :=
  Function.update_self _ _ _

theorem reprioritized_ne {j : TaskPtr} (e : j ≠ t) : (reprioritized s t p h).tasks j = s.tasks j :=
  Function.update_of_ne e _ _

theorem reprioritized_keep (j : TaskPtr) : ((reprioritized s t p h).tasks j).selector = (s.tasks j).selector ∧
    ((reprioritized s t p h).tasks j).flag = (s.tasks j).flag := by
  by_cases e : j = t
  · rw [e, reprioritized_self]
    exact ⟨rfl, rfl⟩
  · rw [reprioritized_ne e]
    exact ⟨rfl, rfl⟩

/-- A change of priority keeps what is known, if the lists hold the task where it belongs after it. -/
theorem Queued.reprioritize {c c' : SchedList → List TaskPtr} (hi : Queued s c) (hl : Lists h (fun _ => True) c')
    (hself : ∀ l, t ∈ c' l ↔ (reprioritized s t p h).place t = some l)
    (hother : ∀ l u, u ≠ t → (u ∈ c' l ↔ u ∈ c l)) : Queued (reprioritized s t p h) c' where
  lists := hl
  mem l u := by
    by_cases e : u = t
    · rw [e]
      exact hself l
    · rw [hother l u e, TaskStruct.place, reprioritized_ne e]
      exact hi.mem l u
  running := by
    have hkeep := reprioritized_keep (s := s) (t := t) (p := p) (h := h) s.pNow
    exact ⟨hkeep.1.trans_ne hi.running.1, hkeep.2.trans hi.running.2⟩
  single j hsel hflag := by
    have hkeep := reprioritized_keep (s := s) (t := t) (p := p) (h := h) j
    exact hi.single j (hkeep.1 ▸ hsel) (hkeep.2 ▸ hflag)

/-- the place of a task does not depend on its priority, unless it is READY -/
theorem place_reprioritized (hf : (s.tasks t).flag ≠ .ready) :
    (reprioritized s t p h).place t = s.place t := by
  rw [TaskStruct.place, TaskStruct.place, reprioritized_self]
  unfold Task.place
  cases hflag : (s.tasks t).flag with
  | ready => exact absurd hflag hf
  | running => rfl
  | wait => rfl
  | waitForExit => rfl

section
variable {c : SchedList → List TaskPtr} (hi : Queued s c)
include hi

theorem reprioritize_number (hf : (s.tasks t).flag ≠ .ready) : Queued (reprioritized s t p s.nodes) c :=
  hi.reprioritize hi.lists (fun l => by rw [place_reprioritized hf]; exact hi.mem l t) fun l u _ => Iff.rfl

theorem reprioritize_ready (hs : (s.tasks t).selector ≠ 0) (hf : (s.tasks t).flag = .ready) :
    Queued (reprioritized s t p (movedNodes s t p)) (movedLists c t (s.tasks t).priority p) := by
  have ht : t ∈ c (.ready (s.tasks t).priority) := (hi.mem _ _).mpr (place_ready hs hf)
  have hplace : (reprioritized s t p (movedNodes s t p)).place t = some (.ready p) := by
    have hkeep := reprioritized_keep (s := s) (t := t) (p := p) (h := movedNodes s t p) t
    have hready := place_ready (hkeep.1.trans_ne hs) (hkeep.2.trans hf)
    rw [reprioritized_self] at hready
    rw [TaskStruct.place, reprioritized_self]
    exact hready
  refine hi.reprioritize (hi.lists.move trivial trivial ht) (fun l => ?_) fun l u e => ?_
  · rw [mem_movedLists hi.lists ht, if_pos rfl, hplace, Option.some_inj]
    exact eq_comm
  · rw [mem_movedLists hi.lists ht, if_neg e]

/-- **A change of priority keeps the queues as they should be**: the task has the priority `p`, everything else is as it
was, but that a READY task is at the end of `ReadyList[p]` if it was in another one. -/
theorem changePriority_spec {taskId : Nat} (ht : csGetTaskFromId s taskId = some t) (p : TaskPriority)
    (hp : (s.tasks t).flag = .wait → (s.tasks t).priority = p) :
    ∃ h c', ckTaskChangePriority s taskId p = (true, reprioritized s t p h) ∧ Queued (reprioritized s t p h) c' ∧
      c' = if (s.tasks t).flag = .ready ∧ (s.tasks t).priority ≠ p then movedLists c t (s.tasks t).priority p else c := by
  have hlive := (csGetTaskFromId_some ht).1
  by_cases hn : t = s.pNow
  · have hf : (s.tasks t).flag ≠ .ready := by
      rw [hn, hi.running.2]
      exact fun e => by cases e
    refine ⟨_, c, changePriority_current ht hn, reprioritize_number hi hf, ?_⟩
    rw [if_neg (fun h => hf h.1)]
  · by_cases e : (s.tasks t).priority = p
    · refine ⟨s.nodes, c, ?_, ?_, ?_⟩
      · rw [← e, reprioritized_same]
        exact changePriority_same ht hn
      · rw [← e, reprioritized_same]
        exact hi
      · rw [if_neg (fun h => h.2 e)]
    · -- a live task that neither runs nor waits is READY
      have hf : (s.tasks t).flag = .ready := by
        cases hflag : (s.tasks t).flag with
        | ready => rfl
        | running => exact absurd (hi.single t hlive.1 hflag) hn
        | wait => exact absurd (hp hflag) e
        | waitForExit => exact absurd hflag hlive.2
      refine ⟨_, _, changePriority_moved ht hn e, reprioritize_ready hi hlive.1 hf, ?_⟩
      rw [if_pos ⟨hf, e⟩]

/-- **A waiting task that is given another priority** is in a `ReadyList` from then on, so the scheduler can dispatch it,
and its flag is still WAIT. -/
theorem changePriority_wait {taskId : Nat} (ht : csGetTaskFromId s taskId = some t) (hf : (s.tasks t).flag = .wait)
    (hp : (s.tasks t).priority ≠ p) : ∃ s', ckTaskChangePriority s taskId p = (true, s') ∧
      ckLinkedListTail s'.nodes (.ready p) = .node t ∧ (s'.tasks t).flag = .wait ∧ ∀ c', ¬ Queued s' c' := by
  have hn : t ≠ s.pNow := by
    rintro rfl
    have hrun := hi.running.2
    rw [hf] at hrun
    cases hrun
  have htail : ckLinkedListTail (movedNodes s t p) (.ready p) = .node t := by
    show (movedNodes s t p).links.prev _ = _
    unfold movedNodes
    rw [push_links]
    exact Function.update_self _ _ _
  have hflag : ((reprioritized s t p (movedNodes s t p)).tasks t).flag = .wait := (reprioritized_keep t).2.trans hf
  refine ⟨_, changePriority_moved ht hn hp, htail, hflag, fun c' hi' => ?_⟩
  -- the last task of a `ReadyList` is READY
  have hlast : ((c' (.ready p)).map Addr.node).getLastD (.dummy (SchedList.ready p)) = .node t :=
    ((hi'.lists.ring _ trivial).prev_head).symm.trans htail
  have hin : t ∈ c' (.ready p) := by
    rw [← node_mem (l := SchedList.ready p), ← hlast]
    exact getLastD_mem _ _
  have hready := (ready_of_place ((hi'.mem _ _).mp hin)).2
  rw [hflag] at hready
  cases hready

end
end

/-! ## examples of runs -/

/-- what a call is to do if a READY task is to be the last one of its list in any case -/
def Requeues (s : TaskStruct) (c : SchedList → List TaskPtr) (taskId : Nat) (t : TaskPtr) (p : TaskPriority) : Prop :=
  ∃ h c', ckTaskChangePriority s taskId p = (true, reprioritized s t p h) ∧ Queued (reprioritized s t p h) c' ∧
    ((s.tasks t).flag = .ready → ∃ ns, c' (.ready p) = ns ++ [t])

/-- two tasks of one priority are created in the kernel process -/
def pairRun : List Op := createRun ++ createRun

theorem pairRun_some : (execAll 0 Op.Proper pairRun bootState).isSome := by decide +kernel

def pairState : TaskStruct := (execAll 0 Op.Proper pairRun bootState).get pairRun_some

theorem pairState_queued : ∃ c, Queued pairState c :=
  ((execAll_reach (.boot 0 fun _ => 0) (Option.some_get pairRun_some).symm).inv fun _ _ h => h).queued

theorem joinState_queued : ∃ c, Queued joinState c :=
  ((execAll_reach (.boot 0 fun _ => 0) (Option.some_get joinRun_some).symm).inv fun _ _ h => h).queued

theorem changePriority_spec_pairRun : ∃ c h c', Queued pairState c ∧
    ckTaskChangePriority pairState 4098 .high = (true, reprioritized pairState 2 .high h) ∧
    Queued (reprioritized pairState 2 .high h) c' ∧ c' = movedLists c 2 .normal .high := by
  obtain ⟨c, hi⟩ := pairState_queued
  have hf : (pairState.tasks 2).flag = .ready ∧ (pairState.tasks 2).priority = .normal := by decide +kernel
  have ht : csGetTaskFromId pairState 4098 = some 2 := by decide +kernel
  obtain ⟨h, c', hcall, hi', hc⟩ := changePriority_spec hi ht .high (fun e => by rw [hf.1] at e; cases e)
  rw [hf.1, hf.2, if_pos ⟨rfl, fun e => by cases e⟩] at hc
  exact ⟨c, h, c', hi, hcall, hi', hc⟩

/-- **Two calls that do not do that**: the first of two READY tasks is given the priority it has and stays in front, and a
waiting task is given another priority. -/
theorem priority_kept : (∃ c, Queued pairState c ∧ csGetTaskFromId pairState 4098 = some 2 ∧
      ¬ Requeues pairState c 4098 2 .normal) ∧
    (∃ c, Queued joinState c ∧ csGetTaskFromId joinState 4098 = some 2 ∧ (joinState.tasks 2).flag = .wait ∧
      ¬ Requeues joinState c 4098 2 .high) := by
  constructor
  · obtain ⟨c, hi⟩ := pairState_queued
    have hget : csGetTaskFromId pairState 4098 = some 2 := by decide +kernel
    have hready : (pairState.tasks 2).flag = .ready ∧ (pairState.tasks 2).priority = .normal := by decide +kernel
    have htail : ckLinkedListTail pairState.nodes (.ready .normal) = .node 3 := by decide +kernel
    refine ⟨c, hi, hget, ?_⟩
    rintro ⟨h, c', hcall, hi', hlast⟩
    obtain ⟨ns, hns⟩ := hlast hready.1
    have hsame : ckTaskChangePriority pairState 4098 .normal = (true, pairState) := by
      have hsame := changePriority_same hget (by decide +kernel)
      rwa [hready.2] at hsame
    have hnodes : h = pairState.nodes := congrArg (fun x => x.2.nodes) (hcall.symm.trans hsame)
    have hprev := (hi'.lists.ring (.ready .normal) trivial).prev_head
    rw [hns, List.map_append] at hprev
    have hcon : Addr.node 3 = (ns.map Addr.node ++ [Addr.node 2]).getLastD (Addr.dummy (SchedList.ready .normal)) := by
      rw [← htail, ← hnodes]
      exact hprev
    rw [List.getLastD_concat] at hcon
    cases hcon
  · obtain ⟨c, hi⟩ := joinState_queued
    have hget : csGetTaskFromId joinState 4098 = some 2 := by decide +kernel
    have hwait : (joinState.tasks 2).flag = .wait ∧ (joinState.tasks 2).priority ≠ .high := by decide +kernel
    refine ⟨c, hi, hget, hwait.1, ?_⟩
    rintro ⟨h, c', hcall, hi', -⟩
    obtain ⟨s', hs', -, -, hno⟩ := changePriority_wait hi hget hwait.1 hwait.2
    have e : reprioritized joinState 2 .high h = s' := congrArg Prod.snd (hcall.symm.trans hs')
    exact hno c' (e ▸ hi')

end Clubcos
