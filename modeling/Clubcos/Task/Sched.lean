import Clubcos.Lib.Fair
import Clubcos.LinkedList.Located
import Clubcos.Task.Model

/-!
# The scheduler as a dispatcher over queues by level

`ckTaskSchedule_internal` on a state with well formed `ReadyList`s is one step of the dispatcher of
`Fair`, the levels being the priorities.

* `schedule_pick`    a call finds the task that `Fair.pick` finds, and switches to it;
* `switchTo_eq`      what a switch changes;
* `Dispatches`       the simulation between scheduler states and dispatcher states;
* `no_starvation`    **every READY task gets the processor**, and no call is wasted.
-/

set_option linter.unusedVariables false
set_option linter.unusedSectionVars false

namespace Clubcos
open Word

/-! ## updates of one slot -/

section
variable {α : Type} (s : TaskStruct) (i : TaskPtr) (f : Task → Task)

@[simp] theorem setTask_self : (s.setTask i f).tasks i = f (s.tasks i) := Function.update_self _ _ _

theorem setTask_ne {j : TaskPtr} (h : j ≠ i) : (s.setTask i f).tasks j = s.tasks j :=
  Function.update_of_ne h _ _

/-- a field that is not written -/
theorem setTask_keep (g : Task → α) (hg : g (f (s.tasks i)) = g (s.tasks i)) (j : TaskPtr) :
    g ((s.setTask i f).tasks j) = g (s.tasks j) := by
  by_cases e : j = i
  · rw [e, setTask_self, hg]
  · rw [setTask_ne s i f e]

end

/-- a write to one slot, as a new value for some fields of every slot -/
theorem update_eq_fun {ι α β : Type} [DecidableEq ι] {f : ι → α} {i : ι} {v : α} {c : ι → β}
    (g : α → β → α) (hv : v = g (f i) (c i)) (hk : ∀ j, j ≠ i → g (f j) (c j) = f j) :
    Function.update f i v = fun j => g (f j) (c j) := by
  funext j
  by_cases e : j = i
  · rw [e, Function.update_self, hv]
  · rw [Function.update_of_ne e, hk j e]

theorem update_twice {ι α : Type} [DecidableEq ι] (f : ι → α) (i : ι) (g g' : α → α) :
    Function.update (Function.update f i (g (f i))) i (g' (Function.update f i (g (f i)) i))
      = Function.update f i (g' (g (f i))) := by
  rw [Function.update_idem, Function.update_self]

/-! ## a switch -/

/-- the heap after the current task went back to its `ReadyList`, if it still runs -/
def putBackNodes (s : TaskStruct) : Heap SchedList TaskPtr :=
  if (s.tasks s.pNow).flag = .running then
    ckLinkedListPushBack_lockfree s.nodes (.ready (s.tasks s.pNow).priority) s.pNow
  else s.nodes

/-- the flags after a switch to `t` -/
def switchFlag (s : TaskStruct) (t j : TaskPtr) : TaskFlag :=
  if j = t then .running
  else if j = s.pNow ∧ (s.tasks j).flag = .running then .ready
  else (s.tasks j).flag

/-- the flag of a slot after a switch: `t` runs, the task that ran is READY, the others stay -/
theorem switchFlag_cases (s : TaskStruct) (t j : TaskPtr) :
    j = t ∧ switchFlag s t j = .running ∨
    j ≠ t ∧ j = s.pNow ∧ (s.tasks j).flag = .running ∧ switchFlag s t j = .ready ∨
    j ≠ t ∧ switchFlag s t j = (s.tasks j).flag ∧ (j = s.pNow → (s.tasks j).flag ≠ .running) := by
  unfold switchFlag
  by_cases ht : j = t
  · exact Or.inl ⟨ht, if_pos ht⟩
  · rw [if_neg ht]
    by_cases hr : j = s.pNow ∧ (s.tasks j).flag = .running
    · exact Or.inr (Or.inl ⟨ht, hr.1, hr.2, if_pos hr⟩)
    · exact Or.inr (Or.inr ⟨ht, if_neg hr, fun e h => hr ⟨e, h⟩⟩)

theorem switchFlag_exit {s : TaskStruct} {t j : TaskPtr} (ht : (s.tasks t).flag ≠ .waitForExit) :
    switchFlag s t j = .waitForExit ↔ (s.tasks j).flag = .waitForExit := by
  rcases switchFlag_cases s t j with ⟨rfl, e⟩ | ⟨_, _, hr, e⟩ | ⟨_, e, _⟩
  · rw [e]
    exact iff_of_false (fun h => by cases h) ht
  · rw [e, hr]
    exact iff_of_false (fun h => by cases h) (fun h => by cases h)
  · rw [e]

theorem putBack_eq (s : TaskStruct) : putBack s = { s with
    tasks := fun j => { s.tasks j with
      flag := if j = s.pNow ∧ (s.tasks j).flag = .running then .ready else (s.tasks j).flag }
    nodes := putBackNodes s } := by
  unfold putBack putBackNodes
  by_cases h : (s.tasks s.pNow).flag = .running
  · rw [if_pos h, if_pos h]
    refine congrArg (fun f => ({ s with tasks := f, nodes := _ } : TaskStruct)) ?_
    refine update_eq_fun (fun (t : Task) fl => { t with flag := fl }) ?_ fun j e => ?_
    · rw [if_pos ⟨rfl, h⟩]
    · rw [if_neg fun h => e h.1]
  · have hkeep : ∀ j, { s.tasks j with
        flag := if j = s.pNow ∧ (s.tasks j).flag = .running then .ready else (s.tasks j).flag } = s.tasks j := by
      intro j
      have hn : ¬ (j = s.pNow ∧ (s.tasks j).flag = .running) := fun ⟨e, hf⟩ => h (e ▸ hf)
      rw [if_neg hn]
    rw [if_neg h, if_neg h, funext hkeep]

theorem charge_eq (s : TaskStruct) : ∃ (cpu : TaskPtr → Nat) (cpu' : ProcPtr → Nat), charge s = { s with
    tasks := fun j => { s.tasks j with usedCpuTime := cpu j }
    processes := fun p => { s.processes p with usedCpuTime := cpu' p } } := by
  unfold charge
  cases h : (s.tasks s.pNow).pProcess with
  | none => exact ⟨fun j => (s.tasks j).usedCpuTime, fun p => (s.processes p).usedCpuTime, by simp only [h]⟩
  | some p =>
    simp only [h]
    let used := sub32 taskQuantum s.remainQuantum
    refine ⟨fun j => if j = s.pNow then u32 ((s.tasks j).usedCpuTime + used) else (s.tasks j).usedCpuTime,
      fun q => if q = p then u32 ((s.processes q).usedCpuTime + used) else (s.processes q).usedCpuTime, ?_⟩
    refine congrArg₂ (fun f g => ({ s with tasks := f, processes := g } : TaskStruct)) ?_ ?_
    · refine update_eq_fun (fun (t : Task) n => { t with usedCpuTime := n }) ?_ fun j ej => ?_
      · rw [if_pos rfl]
        rfl
      · rw [if_neg ej]
        rfl
    · refine update_eq_fun (fun (p : Process) n => { p with usedCpuTime := n }) ?_ fun q eq => ?_
      · rw [if_pos rfl]
      · rw [if_neg eq]

/-- **What a switch changes**: the flags, the list of the task that ran, the time used, the current
task with what hangs on it, and `CR0.TS`. -/
theorem switchTo_eq (s : TaskStruct) (t : TaskPtr) (hw : Bool) :
    ∃ (cpu : TaskPtr → Nat) (cpu' : ProcPtr → Nat), switchTo s t hw = { s with
    tasks := fun j => { s.tasks j with flag := switchFlag s t j, usedCpuTime := cpu j }
    processes := fun p => { s.processes p with usedCpuTime := cpu' p }
    nodes := putBackNodes s
    pProcData := (s.tasks t).pProcess
    ts := decide (some t ≠ s.pLastTaskUsedFPU) || hw
    pNow := t
    remainQuantum := taskQuantum } := by
  obtain ⟨cpu, cpu', h⟩ := charge_eq (putBack s)
  refine ⟨cpu, cpu', ?_⟩
  have hsw : switchTo s t hw = { charge (putBack s) with
    tasks := Function.update (charge (putBack s)).tasks t { (charge (putBack s)).tasks t with flag := .running }
    pProcData := ((charge (putBack s)).tasks t).pProcess
    ts := decide (some t ≠ (charge (putBack s)).pLastTaskUsedFPU) || hw
    pNow := t
    remainQuantum := taskQuantum } := rfl
  rw [hsw, h, putBack_eq]
  refine congrArg (fun f => ({ s with
    tasks := f, processes := _, nodes := _, pProcData := _, ts := _, pNow := t, remainQuantum := _ } : TaskStruct))
    ?_
  refine update_eq_fun (c := fun j => (switchFlag s t j, cpu j))
    (fun (t : Task) fl => { t with flag := fl.1, usedCpuTime := fl.2 }) ?_ fun j e => ?_
  · unfold switchFlag
    rw [if_pos rfl]
  · unfold switchFlag
    rw [if_neg e]

/-! ## the search for the next task -/

theorem popTask_frame {s s' : TaskStruct} {l : SchedList} {r : Option TaskPtr} (h : popTask s l = some (r, s')) :
    ∃ g, s' = { s with nodes := g } := by
  unfold popTask at h
  split at h <;> cases h <;> exact ⟨_, rfl⟩

theorem readyScan_frame {s' : TaskStruct} {r : Option TaskPtr} : ∀ {ps : List TaskPriority} {s : TaskStruct},
    readyScan ps s = some (r, s') → ∃ g count, s' = { s with nodes := g, executeCount := count }
  | [], s, h => by
    cases h
    exact ⟨s'.nodes, s'.executeCount, rfl⟩
  | p :: ps, s, h => by
    unfold readyScan at h
    split at h
    · obtain ⟨⟨r₁, s₁⟩, h₁, h₂⟩ := Option.bind_eq_some_iff.mp h
      cases h₂
      obtain ⟨g, rfl⟩ := popTask_frame h₁
      exact ⟨g, _, rfl⟩
    · exact readyScan_frame (s := { s with executeCount := Function.update s.executeCount p 0 }) h

/-- a call changes the lists and the counts, and then it may switch -/
theorem schedule_frame {s s' : TaskStruct} {b hw : Bool} (h : ckTaskSchedule_internal s hw = some (b, s')) :
    ∃ g count, b = false ∧ s' = { s with nodes := g, executeCount := count } ∨
      b = true ∧ ∃ t, s' = switchTo { s with nodes := g, executeCount := count } t hw := by
  obtain ⟨⟨r₁, s₁⟩, h₁, h⟩ := Option.bind_eq_some_iff.mp h
  obtain ⟨g, count, rfl⟩ := readyScan_frame h₁
  cases r₁ with
  | some t =>
    cases h
    exact ⟨g, count, Or.inr ⟨rfl, t, rfl⟩⟩
  | none =>
    obtain ⟨⟨r₂, s₂⟩, h₂, h⟩ := Option.bind_eq_some_iff.mp h
    obtain ⟨g, count, rfl⟩ := readyScan_frame h₂
    cases r₂ with
    | none =>
      cases h
      exact ⟨g, count, Or.inl ⟨rfl, rfl⟩⟩
    | some t =>
      cases h
      exact ⟨g, count, Or.inr ⟨rfl, t, rfl⟩⟩

/-- the queues, counts and current task of a state whose lists hold the nodes `c` -/
def dispatcher (s : TaskStruct) (c : SchedList → List TaskPtr) : Fair.State TaskPriority TaskPtr :=
  ⟨fun p => c (.ready p), s.executeCount, s.pNow⟩

theorem maxTask_lt {ns : List TaskPtr} (h : ns.Nodup) : ns.length < 2^32 := by
  have := h.length_le_card
  rw [Fintype.card_fin] at this
  exact Nat.lt_of_le_of_lt this (by decide)

section
variable {s : TaskStruct} {act : SchedList → Prop} {c : SchedList → List TaskPtr}
  (hl : Lists s.nodes act c) (hact : ∀ p, act (.ready p))
include hl hact

theorem popTask_cons {p : TaskPriority} {t : TaskPtr} {ts : List TaskPtr} (hc : c (.ready p) = t :: ts) :
    popTask s (.ready p) = some (some t, { s with nodes := ckLinkedListErase s.nodes (.ready p) t }) := by
  unfold popTask
  rw [hl.pop_cons (hact p) hc]

/-- `readyScan` is `Fair.scan`, and takes the task it finds out of its list -/
theorem readyScan_scan (levels : List TaskPriority) : ∀ count : TaskPriority → Nat,
    (∀ count', Fair.scan (fun p => c (.ready p)) levels count = (none, count') →
      readyScan levels { s with executeCount := count } = some (none, { s with executeCount := count' })) ∧
    (∀ p count', Fair.scan (fun p => c (.ready p)) levels count = (some p, count') →
      ∃ t ts, c (.ready p) = t :: ts ∧ readyScan levels { s with executeCount := count }
        = some (some t, { s with
            nodes := ckLinkedListErase s.nodes (.ready p) t, executeCount := count' })) := by
  induction levels with
  | nil =>
    intro count
    refine ⟨fun count' h => ?_, fun p count' h => by cases h⟩
    cases h
    rfl
  | cons i is ih =>
    intro count
    have hlen : s.nodes.size (.ready i) = (c (.ready i)).length := by
      rw [hl.size _ (hact i)]
      exact u32_of_lt (maxTask_lt (hl.nodup _ (hact i)))
    by_cases h : count i < (c (.ready i)).length
    · have hs : Fair.scan (fun p => c (.ready p)) (i :: is) count
          = (some i, Function.update count i (count i + 1)) := if_pos h
      have hsize : count i < s.nodes.size (.ready i) := hlen ▸ h
      have hscan : readyScan (i :: is) { s with executeCount := count } = _ := if_pos hsize
      rw [hs, hscan]
      refine ⟨fun count' h => (by cases h), fun p count' h => ?_⟩
      cases h
      cases hc : c (.ready i) with
      | nil =>
        rw [hc] at h
        exact absurd h (Nat.not_lt_zero _)
      | cons t ts =>
        refine ⟨t, ts, rfl, ?_⟩
        have hpop := popTask_cons (s := { s with executeCount := count }) hl hact hc
        have hcount : u32 (count i + 1) = count i + 1 := by
          have := maxTask_lt (hl.nodup _ (hact i))
          exact u32_of_lt (by omega)
        rw [hpop]
        show some (some t, { s with
          nodes := _, executeCount := Function.update count i (u32 (count i + 1)) }) = _
        rw [hcount]
    · have hs : Fair.scan (fun p => c (.ready p)) (i :: is) count
          = Fair.scan (fun p => c (.ready p)) is (Function.update count i 0) := if_neg h
      have hsize : ¬ count i < s.nodes.size (.ready i) := hlen ▸ h
      have hscan : readyScan (i :: is) { s with executeCount := count }
          = readyScan is { s with executeCount := Function.update count i 0 } := if_neg hsize
      rw [hs, hscan]
      exact ih _

/-- the task found by two rounds of the search is that of `Fair.pick` -/
theorem schedule_pick (hw : Bool) :
    (∀ count, Fair.pick TaskPriority.all (dispatcher s c) = (none, count) →
      ckTaskSchedule_internal s hw = some (false, { s with executeCount := count })) ∧
    (∀ p count, Fair.pick TaskPriority.all (dispatcher s c) = (some p, count) →
      ∃ t ts, c (.ready p) = t :: ts ∧ ckTaskSchedule_internal s hw = some (true, switchTo { s with
        nodes := ckLinkedListErase s.nodes (.ready p) t, executeCount := count } t hw)) := by
  obtain ⟨h1, h2⟩ := readyScan_scan hl hact TaskPriority.all s.executeCount
  unfold ckTaskSchedule_internal
  rcases hscan : Fair.scan (fun p => c (.ready p)) TaskPriority.all s.executeCount with ⟨_ | p, count⟩
  · have hpick : Fair.pick TaskPriority.all (dispatcher s c)
        = Fair.scan (fun p => c (.ready p)) TaskPriority.all count := Fair.pick_none hscan
    obtain ⟨h3, h4⟩ := readyScan_scan hl hact TaskPriority.all count
    rw [h1 count hscan, hpick]
    refine ⟨fun count' h => ?_, fun p count' h => ?_⟩
    · show (readyScan TaskPriority.all { s with executeCount := count }).bind _ = _
      rw [h3 count' h]
      rfl
    · obtain ⟨t, ts, hc, e⟩ := h4 p count' h
      refine ⟨t, ts, hc, ?_⟩
      show (readyScan TaskPriority.all { s with executeCount := count }).bind _ = _
      rw [e]
      rfl
  · have hpick : Fair.pick TaskPriority.all (dispatcher s c) = (some p, count) := Fair.pick_some hscan
    obtain ⟨t, ts, hc, e⟩ := h2 p count hscan
    rw [hpick]
    refine ⟨fun count' h => (by cases h), fun p' count' h => ?_⟩
    cases h
    refine ⟨t, ts, hc, ?_⟩
    rw [e]
    rfl

end

/-! ## the simulation -/

theorem all_nodup : TaskPriority.all.Nodup := by decide

theorem mem_all (p : TaskPriority) : p ∈ TaskPriority.all := by
  cases p <;> decide

/-- the `ReadyList`s -/
def IsReady (l : SchedList) : Prop := ∃ p, l = .ready p

def readyOf (queue : TaskPriority → List TaskPtr) : SchedList → List TaskPtr
  | .ready p => queue p
  | _ => []

theorem readyOf_update (queue : TaskPriority → List TaskPtr) (p : TaskPriority) (ts : List TaskPtr) :
    Function.update (readyOf queue) (.ready p) ts = readyOf (Function.update queue p ts) := by
  funext l
  by_cases e : l = .ready p
  · subst e
    rw [Function.update_self]
    exact (Function.update_self p ts queue).symm
  · rw [Function.update_of_ne e]
    cases l with
    | ready q => exact (Function.update_of_ne (fun h : q = p => e (h ▸ rfl)) ts queue).symm
    | wait => rfl
    | waitForExit => rfl

/-- the scheduler state `s` does the work of the dispatcher state `d` -/
structure Dispatches (s : TaskStruct) (d : Fair.State TaskPriority TaskPtr) : Prop where
  lists : Lists s.nodes IsReady (readyOf d.queue)
  count : s.executeCount = d.count
  now : s.pNow = d.now
  running : (s.tasks s.pNow).flag = .running
  ready : ∀ p, ∀ t ∈ d.queue p, (s.tasks t).flag = .ready ∧ (s.tasks t).priority = p

/-- the level of a task -/
def levelOf (s : TaskStruct) (t : TaskPtr) : TaskPriority := (s.tasks t).priority

section
variable {s : TaskStruct} {d : Fair.State TaskPriority TaskPtr} (h : Dispatches s d)
include h

theorem Dispatches.dispatcher_eq : dispatcher s (readyOf d.queue) = d := by
  unfold dispatcher
  rw [h.count, h.now]
  rfl

theorem Dispatches.consistent : Fair.Consistent (levelOf s) d := fun p t ht => (h.ready p t ht).2

theorem Dispatches.now_notMem (p : TaskPriority) : s.pNow ∉ d.queue p := by
  intro hm
  have h1 := (h.ready p _ hm).1
  rw [h.running] at h1
  cases h1

/-- the lists after the first task `t` of a level was taken out and the current task was put back -/
theorem Dispatches.turn_lists {p : TaskPriority} {t : TaskPtr} {ts : List TaskPtr} (hq : d.queue p = t :: ts)
    (count : TaskPriority → Nat) :
    Lists (putBackNodes { s with nodes := ckLinkedListErase s.nodes (.ready p) t, executeCount := count })
      IsReady (readyOf (Fair.turn (levelOf s) d p t ts count).queue) := by
  have he : Lists (ckLinkedListErase s.nodes (.ready p) t) IsReady (readyOf (Function.update d.queue p ts)) := by
    have hq' : readyOf d.queue (.ready p) = t :: ts := hq
    have := h.lists.erase ⟨p, rfl⟩ (hq' ▸ List.mem_cons_self)
    rwa [hq', List.erase_cons_head, readyOf_update] at this
  have hnot : ∀ l, IsReady l → s.pNow ∉ readyOf (Function.update d.queue p ts) l := by
    rintro _ ⟨q, rfl⟩ hm
    by_cases e : q = p
    · rw [e] at hm
      have hm' : s.pNow ∈ ts := Function.update_self p ts d.queue ▸ hm
      exact h.now_notMem p (hq ▸ List.mem_cons_of_mem _ hm')
    · exact h.now_notMem q (Function.update_of_ne e ts d.queue ▸ hm)
  have hpush := he.push ⟨levelOf s s.pNow, rfl⟩ hnot
  rw [readyOf_update] at hpush
  unfold putBackNodes
  rw [if_pos h.running]
  show Lists _ _ (readyOf (Fair.requeue (Function.update d.queue p ts) (levelOf s d.now) d.now))
  rw [← h.now]
  exact hpush

/-- **A call is a step of the dispatcher.** -/
theorem Dispatches.step (hw : Bool) : ∃ switched s', ckTaskSchedule_internal s hw = some (switched, s') ∧
    Dispatches s' (Fair.step TaskPriority.all (levelOf s) d) ∧ levelOf s' = levelOf s ∧
    ((∃ p, d.queue p ≠ []) → switched = true ∧ (s.tasks s'.pNow).flag = .ready) := by
  obtain ⟨h1, h2⟩ := schedule_pick h.lists (fun p => ⟨p, rfl⟩) hw
  rw [h.dispatcher_eq] at h1 h2
  rcases hpick : Fair.pick TaskPriority.all d with ⟨_ | p, count⟩
  · refine ⟨_, _, h1 count hpick, ?_, rfl, fun ⟨p, hp⟩ => ?_⟩
    · rw [Fair.step_none hpick]
      exact ⟨h.lists, rfl, h.now, h.running, h.ready⟩
    · exact absurd (Fair.pick_none_empty all_nodup hpick p (mem_all p)) hp
  · obtain ⟨t, ts, hq, e⟩ := h2 p count hpick
    obtain ⟨cpu, cpu', hsw⟩ := switchTo_eq
      { s with nodes := ckLinkedListErase s.nodes (.ready p) t, executeCount := count } t hw
    have hq' : d.queue p = t :: ts := hq
    have ht := h.ready p t (hq' ▸ List.mem_cons_self)
    rw [Fair.step_some hpick hq, e, hsw]
    refine ⟨_, _, rfl, ⟨h.turn_lists hq count, rfl, rfl, if_pos rfl, fun l j hj => ?_⟩, rfl, fun _ => ⟨rfl, ht.1⟩⟩
    show switchFlag _ t j = .ready ∧ levelOf s j = l
    -- a task waiting after the turn waited before, or it is the one that ran
    rw [Fair.turn_queue] at hj
    unfold switchFlag
    rcases List.mem_append.mp hj with hj | hj
    · have hjq : j ∈ d.queue l ∧ j ≠ t := by
        by_cases el : l = p
        · rw [if_pos el] at hj
          rw [el, hq']
          have hnd : (t :: ts).Nodup := hq' ▸ h.lists.nodup (.ready p) ⟨p, rfl⟩
          exact ⟨List.mem_cons_of_mem _ hj, fun ej => (List.nodup_cons.mp hnd).1 (ej ▸ hj)⟩
        · rw [if_neg el] at hj
          exact ⟨hj, fun ej => el ((h.ready l j hj).2.symm.trans (ej ▸ ht.2))⟩
      have hjr := h.ready l j hjq.1
      rw [if_neg hjq.2, if_neg fun hc => (by rw [hjr.1] at hc; cases hc.2)]
      exact hjr
    · by_cases el : levelOf s d.now = l
      · rw [if_pos el] at hj
        have ej : j = s.pNow := (List.mem_singleton.mp hj).trans h.now.symm
        have hjt : j ≠ t := fun e => h.now_notMem p (ej ▸ e ▸ hq' ▸ List.mem_cons_self)
        subst ej
        rw [if_neg hjt, if_pos ⟨rfl, h.running⟩]
        exact ⟨rfl, h.now ▸ el⟩
      · rw [if_neg el] at hj
        exact absurd hj List.not_mem_nil

end

/-! ## no starvation -/

/-- `k` calls, `hw` says for each whether the processor sets `CR0.TS` -/
def scheduleTimes (hw : Nat → Bool) : Nat → TaskStruct → Option TaskStruct
  | 0, s => some s
  | k+1, s => do
    let s ← scheduleTimes hw k s
    let (_, s) ← ckTaskSchedule_internal s (hw k)
    some s

/-- the READY tasks are in the `ReadyList`s of their priorities, with the right sizes, and the current
task is RUNNING -/
structure SchedState (s : TaskStruct) : Prop where
  ready : ∀ p, ∃ ts, Spelled s.nodes (.ready p) ts ∧ ∀ t, t ∈ ts ↔
    (s.tasks t).selector ≠ 0 ∧ (s.tasks t).flag = .ready ∧ (s.tasks t).priority = p
  running : (s.tasks s.pNow).flag = .running

theorem SchedState.dispatches {s : TaskStruct} (hs : SchedState s) : ∃ d, Dispatches s d ∧
    ∀ p t, t ∈ d.queue p ↔
      (s.tasks t).selector ≠ 0 ∧ (s.tasks t).flag = .ready ∧ (s.tasks t).priority = p := by
  choose queue hspell hmem using hs.ready
  refine ⟨⟨queue, s.executeCount, s.pNow⟩, ⟨⟨?_, ?_, ?_, ?_⟩, rfl, rfl, hs.running, ?_⟩, hmem⟩
  · rintro _ ⟨p, rfl⟩
    exact (hspell p).ring
  · rintro _ ⟨p, rfl⟩
    exact (hspell p).nodup
  · rintro _ _ t ⟨p, rfl⟩ ⟨q, rfl⟩ hp hq
    have h1 := ((hmem p t).mp hp).2.2
    have h2 := ((hmem q t).mp hq).2.2
    rw [h1.symm.trans h2]
  · rintro _ ⟨p, rfl⟩
    rw [(hspell p).size]
    exact (u32_of_lt (maxTask_lt (hspell p).nodup)).symm
  · exact fun p t ht => ((hmem p t).mp ht).2

theorem Dispatches.times {s : TaskStruct} {d : Fair.State TaskPriority TaskPtr} (h : Dispatches s d)
    (hw : Nat → Bool) (k : Nat) : ∃ s', scheduleTimes hw k s = some s' ∧
      Dispatches s' ((Fair.step TaskPriority.all (levelOf s))^[k] d) ∧ levelOf s' = levelOf s := by
  induction k with
  | zero => exact ⟨s, rfl, h, rfl⟩
  | succ k ih =>
    obtain ⟨s', e, hd, hlev⟩ := ih
    obtain ⟨b, s'', e', hd', hlev', _⟩ := hd.step (hw k)
    refine ⟨s'', ?_, ?_, hlev'.trans hlev⟩
    · show (scheduleTimes hw k s).bind _ = _
      rw [e]
      show (ckTaskSchedule_internal s' (hw k)).bind _ = _
      rw [e']
      rfl
    · rw [hlev] at hd'
      rw [Function.iterate_succ_apply']
      exact hd'

/-- **No starvation by priority**: every READY task is the current one after some number of calls, and
every call switches to a READY task as long as there is one in a `ReadyList`. -/
theorem no_starvation {s : TaskStruct} (hs : SchedState s) (hw : Nat → Bool) :
    (∀ t, (s.tasks t).selector ≠ 0 → (s.tasks t).flag = .ready →
      ∃ k s', scheduleTimes hw k s = some s' ∧ s'.pNow = t) ∧
    ∀ k, ∃ s', scheduleTimes hw k s = some s' ∧
      ((∃ p, ckLinkedListHead s'.nodes (.ready p) ≠ .dummy (.ready p)) →
        ∃ s'', ckTaskSchedule_internal s' (hw k) = some (true, s'') ∧ (s'.tasks s''.pNow).flag = .ready) := by
  obtain ⟨d, hd, hmem⟩ := hs.dispatches
  constructor
  · intro t h1 h2
    obtain ⟨k, hk⟩ := Fair.eventually_now all_nodup (mem_all (levelOf s t)) hd.consistent
      ((hmem (levelOf s t) t).mpr ⟨h1, h2, rfl⟩)
    obtain ⟨s', e, hd', _⟩ := hd.times hw k
    exact ⟨k, s', e, hd'.now.trans hk⟩
  · intro k
    obtain ⟨s', e, hd', _⟩ := hd.times hw k
    obtain ⟨b, s'', e', _, _, hne⟩ := hd'.step (hw k)
    refine ⟨s', e, fun ⟨p, hp⟩ => ?_⟩
    have hq : ((Fair.step TaskPriority.all (levelOf s))^[k] d).queue p ≠ [] := by
      intro hq
      have hhead := hd'.lists.head (l := .ready p) ⟨p, rfl⟩
      have hnil : readyOf ((Fair.step TaskPriority.all (levelOf s))^[k] d).queue (.ready p) = [] := hq
      rw [hnil] at hhead
      exact hp hhead
    obtain ⟨rfl, hr⟩ := hne ⟨p, hq⟩
    exact ⟨s'', e', hr⟩

/-- the state at boot, over zeroed memory -/
def bootState : TaskStruct := ckTaskStructInitialize 0 fun _ => 0

theorem boot_ready (p : TaskPriority) (t : TaskPtr) : (bootState.tasks t).selector ≠ 0 ∧
    (bootState.tasks t).flag = .ready ∧ (bootState.tasks t).priority = p ↔ t = idleTask ∧ p = .idle := by
  by_cases h1 : t = idleTask
  · subst h1
    cases p <;> decide
  · by_cases h0 : t = kernelTask
    · subst h0
      cases p <;> decide
    · have h : bootState.tasks t = (TaskStruct.zero 0 fun _ => 0).tasks t := by
        simp [bootState, ckTaskStructInitialize, TaskStruct.setTask, TaskStruct.setProcess, h0, h1]
      rw [h]
      exact ⟨fun h => absurd rfl h.1, fun h => absurd h.1 h1⟩

theorem boot_sched : SchedState bootState := by
  refine ⟨fun p => ⟨if p = .idle then [idleTask] else [], ⟨?_, ?_, ?_⟩, fun t => ?_⟩, rfl⟩
  · unfold Ring.IsRing Ring.Joined
    cases p <;> decide +kernel
  · cases p <;> decide
  · cases p <;> decide +kernel
  · rw [boot_ready]
    by_cases e : p = .idle
    · rw [if_pos e, List.mem_singleton]
      exact ⟨fun h => ⟨h, e⟩, fun h => h.1⟩
    · rw [if_neg e]
      exact ⟨fun h => absurd h List.not_mem_nil, fun h => absurd h.2 e⟩

theorem no_starvation_boot : (bootState.tasks idleTask).flag = .ready ∧
    ∃ k s', scheduleTimes (fun _ => true) k bootState = some s' ∧ s'.pNow = idleTask :=
  ⟨by decide, (no_starvation boot_sched _).1 idleTask (by decide) (by decide)⟩

end Clubcos
