import Clubcos.Task.Join
import Clubcos.Task.Suspend

/-!
# Termination of another task

`JoinInv s c d` adds to the lists `c` of the scheduler the `WaitMeList`s, which hold the tasks `d`.  It says nothing of
how flags and `WaitObj` fit together: a task that suspended itself waits for nobody, and a task that was resumed early is
READY with `WaitObj` set.

* `foldl_wake`      waking the tasks of a `WaitMeList`, whatever their flags are;
* `Terminated`      what the termination of a task is to do;
* `Killable`        the victims that it does so for;
* `terminate_iff`   **termination of another task does its work exactly for these**;
* `suspended_victim`   a task that suspended itself, and the assertion that fails.
-/

set_option linter.unusedVariables false
set_option linter.unusedSectionVars false

namespace Clubcos
open Word

structure JoinInv (s : TaskStruct) (c : SchedList → List TaskPtr) (d : TaskPtr → List TaskPtr) : Prop
    extends Queued s c where
  waits : Lists s.waits (fun t => (s.tasks t).Live) d
  waitMem : ∀ t, (s.tasks t).Live → ∀ u, u ∈ d t ↔ (s.tasks u).waitObj = some t
  waitLive : ∀ u t, (s.tasks u).waitObj = some t → (s.tasks u).Live ∧ (s.tasks t).Live
  process : ∀ t, (s.tasks t).Live → t ≠ kernelTask → ∃ p, (s.tasks t).pProcess = some p ∧
    ((s.processes p).pMainThread = some t → (s.processes p).pParentProcess ≠ none)

/-- every state between two calls is one -/
theorem TaskInv.joinInv {s : TaskStruct} (hi : TaskInv s) : ∃ c d, JoinInv s c d := by
  obtain ⟨c, hc⟩ := hi.queued
  obtain ⟨d, hd, hmem⟩ := hi.1.waits
  have hslot := hi.1.toSlotInv
  refine ⟨c, d, hc, hd, hmem, fun u t h => ?_, fun t ht hk => ?_⟩
  · obtain ⟨hl, hs, hf⟩ := hslot.waitObj u t h
    refine ⟨⟨hs, ?_⟩, hl⟩
    rw [hf]
    exact fun h => by cases h
  · obtain ⟨p, hp⟩ := Option.ne_none_iff_exists'.mp (hslot.proc t ht)
    refine ⟨p, hp, fun hm => (hslot.parent t p ht.1 hp).resolve_left ?_⟩
    rintro rfl
    exact hk (Option.some.inj (hm.symm.trans hslot.main0))

/-- the lists do not depend on the other members of a task -/
theorem Queued.frame {s s' : TaskStruct} {c : SchedList → List TaskPtr} (hi : Queued s c)
    (htasks : ∀ j, (s'.tasks j).selector = (s.tasks j).selector ∧ (s'.tasks j).flag = (s.tasks j).flag ∧
      (s'.tasks j).priority = (s.tasks j).priority) (hnodes : s'.nodes = s.nodes) (hnow : s'.pNow = s.pNow) :
    Queued s' c := by
  have hplace : ∀ j, s'.place j = s.place j := by
    intro j
    obtain ⟨h1, h2, h3⟩ := htasks j
    unfold TaskStruct.place Task.place
    rw [h1, h2, h3]
  refine ⟨hnodes ▸ hi.lists, fun l t => ?_, ?_, fun t hs hf => ?_⟩
  · rw [hplace]
    exact hi.mem l t
  · unfold Running
    rw [hnow, (htasks _).1, (htasks _).2.1]
    exact hi.running
  · rw [hnow]
    exact hi.single t ((htasks t).1 ▸ hs) ((htasks t).2.1 ▸ hf)

/-! ## waking the tasks that are joined -/

/-- a joined task that is joined no longer -/
def roused (t : Task) : Task := { t with waitObj := none, flag := if t.flag = .wait then .ready else t.flag }

/-- the state after the tasks `js` were woken; `h` holds the lists -/
def rousedAll (s : TaskStruct) (js : List TaskPtr) (h : Heap SchedList TaskPtr) : TaskStruct :=
  { s with tasks := fun u => if u ∈ js then roused (s.tasks u) else s.tasks u, nodes := h }

/-- the lists after the tasks `js` were woken -/
def rousedLists (s : TaskStruct) (c : SchedList → List TaskPtr) (js : List TaskPtr) : SchedList → List TaskPtr
  | .ready p => c (.ready p) ++ js.filter fun u => (s.tasks u).flag = .wait ∧ (s.tasks u).priority = p
  | .wait => (c .wait).filter (· ∉ js)
  | .waitForExit => c .waitForExit

theorem rousedLists_wait {s : TaskStruct} {c : SchedList → List TaskPtr} (hi : Queued s c) {u : TaskPtr}
    (hf : (s.tasks u).flag = .wait) : rousedLists s c [u] = resumedLists c u (s.tasks u).priority := by
  funext l
  unfold resumedLists
  cases l with
  | ready p =>
    have hw : SchedList.ready p ≠ .wait := fun h => by cases h
    by_cases e : p = (s.tasks u).priority
    · subst e
      rw [Function.update_self]
      simp [rousedLists, hf]
    · have hl : SchedList.ready p ≠ .ready (s.tasks u).priority := fun h => e (SchedList.ready.inj h)
      rw [Function.update_of_ne hl, Function.update_of_ne hw]
      simp [rousedLists, Ne.symm e]
  | wait =>
    have hl : SchedList.wait ≠ .ready (s.tasks u).priority := fun h => by cases h
    rw [Function.update_of_ne hl, Function.update_self, (hi.lists.nodup .wait trivial).erase_eq_filter]
    apply List.filter_congr
    intro j _
    by_cases e : j = u <;> simp [e]
  | waitForExit => rfl

theorem rousedLists_other {s : TaskStruct} {c : SchedList → List TaskPtr} (hi : Queued s c) {u : TaskPtr}
    (hf : (s.tasks u).flag ≠ .wait) : rousedLists s c [u] = c := by
  funext l
  cases l with
  | ready p => simp [rousedLists, hf]
  | wait =>
    have hu : ∀ j ∈ c .wait, decide (j ∉ [u]) = true := by
      intro j hj
      have hne : j ≠ u := by
        rintro rfl
        exact hf (wait_of_place ((hi.mem _ _).mp hj)).2
      simpa using hne
    exact List.filter_eq_self.mpr hu
  | waitForExit => rfl

/-- what one round of the loop over `WaitMeList` does -/
theorem wake_step {s : TaskStruct} {c : SchedList → List TaskPtr} (hi : Queued s c) {u : TaskPtr}
    (hs : (s.tasks u).selector ≠ 0) :
    (∃ h, wake s u = { s with tasks := Function.update s.tasks u (roused (s.tasks u)), nodes := h }) ∧
      Queued (wake s u) (rousedLists s c [u]) := by
  let s₀ := s.setTask u fun t => { t with waitObj := none }
  have hself : s₀.tasks u = { s.tasks u with waitObj := none } := setTask_self s u _
  have hi₀ : Queued s₀ c := by
    refine hi.frame (fun j => ⟨?_, ?_, ?_⟩) rfl rfl
    · exact setTask_keep s u _ Task.selector rfl j
    · exact setTask_keep s u _ Task.flag rfl j
    · exact setTask_keep s u _ Task.priority rfl j
  have hwake : wake s u = (ckTaskResume_byptr s₀ u).2 := rfl
  by_cases hf : (s.tasks u).flag = .wait
  · have hf₀ : (s₀.tasks u).flag = .wait := by
      rw [hself]
      exact hf
    have hs₀ : (s₀.tasks u).selector ≠ 0 := by
      rw [hself]
      exact hs
    have hprio : (s₀.tasks u).priority = (s.tasks u).priority := by rw [hself]
    have hupd : Function.update s₀.tasks u { s₀.tasks u with flag := .ready } =
        Function.update s.tasks u (roused (s.tasks u)) := by
      unfold roused
      rw [if_pos hf]
      exact update_twice s.tasks u (fun t => { t with waitObj := none }) (fun t => { t with flag := .ready })
    rw [hwake, resume_eq hf₀, rousedLists_wait hi hf, ← hprio]
    refine ⟨⟨(resumed s₀ u).nodes, ?_⟩, resume_queued hi₀ hs₀ hf₀⟩
    exact congrArg (fun f => ({ s with tasks := f, nodes := _ } : TaskStruct)) hupd
  · have hres : ckTaskResume_byptr s₀ u = (false, s₀) := by
      unfold ckTaskResume_byptr
      rw [if_neg]
      rw [hself]
      exact hf
    rw [hwake, hres, rousedLists_other hi hf]
    refine ⟨⟨s.nodes, ?_⟩, hi₀⟩
    unfold roused
    rw [if_neg hf]
    rfl

/-- the lists after one task was woken and then the others -/
theorem rousedLists_cons {s s' : TaskStruct} (c : SchedList → List TaskPtr) {j : TaskPtr} {js : List TaskPtr}
    (hj : j ∉ js) (hother : ∀ u, u ≠ j → s'.tasks u = s.tasks u) :
    rousedLists s' (rousedLists s c [j]) js = rousedLists s c (j :: js) := by
  funext l
  cases l with
  | ready p =>
    have hfilter : js.filter (fun u => (s'.tasks u).flag = .wait ∧ (s'.tasks u).priority = p) =
        js.filter fun u => (s.tasks u).flag = .wait ∧ (s.tasks u).priority = p := by
      apply List.filter_congr
      intro u hu
      rw [hother u fun e => hj (e ▸ hu)]
    show (c (.ready p) ++ [j].filter _) ++ js.filter _ = c (.ready p) ++ (j :: js).filter _
    rw [hfilter, List.append_assoc, ← List.filter_append]
    rfl
  | wait =>
    show ((c .wait).filter (· ∉ [j])).filter (· ∉ js) = (c .wait).filter (· ∉ j :: js)
    rw [List.filter_filter]
    apply List.filter_congr
    intro u _
    simp [Bool.and_comm]
  | waitForExit => rfl

/-- **Waking the tasks of a `WaitMeList`**, whatever their flags are -/
theorem foldl_wake {js : List TaskPtr} (hnd : js.Nodup) : ∀ {s : TaskStruct} {c : SchedList → List TaskPtr},
    Queued s c → (∀ u ∈ js, (s.tasks u).selector ≠ 0) →
    ∃ h, js.foldl wake s = rousedAll s js h ∧ Queued (rousedAll s js h) (rousedLists s c js) := by
  induction js with
  | nil =>
    intro s c hi _
    have hc : rousedLists s c [] = c := by
      funext l
      cases l <;> simp [rousedLists]
    rw [hc]
    exact ⟨s.nodes, rfl, hi⟩
  | cons j js ih =>
    intro s c hi hsel
    obtain ⟨hj, hnd'⟩ := List.nodup_cons.mp hnd
    obtain ⟨⟨h, e⟩, hi'⟩ := wake_step hi (hsel j List.mem_cons_self)
    have hother : ∀ u, u ≠ j → (wake s j).tasks u = s.tasks u := by
      intro u hne
      rw [e]
      exact Function.update_of_ne hne _ _
    have hsel' : ∀ u ∈ js, ((wake s j).tasks u).selector ≠ 0 := by
      intro u hu
      rw [hother u fun e => hj (e ▸ hu)]
      exact hsel u (List.mem_cons_of_mem j hu)
    obtain ⟨h', e', hq⟩ := ih hnd' hi' hsel'
    have hall : rousedAll (wake s j) js h' = rousedAll s (j :: js) h' := by
      rw [e]
      refine congrArg (fun f => ({ s with tasks := f, nodes := h' } : TaskStruct)) (funext fun u => ?_)
      by_cases eu : u = j
      · rw [eu, if_neg hj, if_pos List.mem_cons_self]
        exact Function.update_self _ _ _
      · show (if u ∈ js then roused (Function.update s.tasks j _ u) else Function.update s.tasks j _ u) = _
        rw [Function.update_of_ne eu]
        simp only [List.mem_cons, eu, false_or]
    rw [rousedLists_cons c hj hother, hall] at hq
    exact ⟨h', e'.trans hall, hq⟩

/-! ## leaving the other tasks -/

/-- the state after `v` has left what it has to do with the other tasks; `js` were joined on it, and `r` is the process that
is to be cleaned up -/
structure Left (s : TaskStruct) (c : SchedList → List TaskPtr) (js : List TaskPtr) (v : TaskPtr) (r : Option ProcPtr)
    (s' : TaskStruct) : Prop where
  queued : Queued s' (rousedLists s c js)
  tasks : ∀ j, s'.tasks j = { (if j ∈ js then roused (s.tasks j) else s.tasks j) with pProcess := (s'.tasks j).pProcess }
  process : ∀ j, j ≠ v → (s'.tasks j).pProcess = (s.tasks j).pProcess
  processes : ∀ p, (s'.processes p).pParentProcess = (s.processes p).pParentProcess ∧
    ((s'.processes p).pMainThread = (s.processes p).pMainThread ∨ (s'.processes p).pMainThread = none)
  cleanup : ∀ p, r = some p → (s.tasks v).pProcess = some p ∧ (s.processes p).pMainThread = some v
  now : s'.pNow = s.pNow
  waits : s'.waits = s.waits

section
variable {s : TaskStruct} {c : SchedList → List TaskPtr} {d : TaskPtr → List TaskPtr} (hi : JoinInv s c d)
  {v : TaskPtr} (hv : (s.tasks v).Live)
include hi hv

theorem JoinInv.wakeLoop : ∃ h, Clubcos.wakeLoop v (maxTask + 1) (ckLinkedListHead s.waits v) s =
    some (rousedAll s (d v) h) ∧ Queued (rousedAll s (d v) h) (rousedLists s c (d v)) := by
  have hnd := hi.waits.nodup v hv
  have hlen : (d v).length < maxTask + 1 := by
    have := hnd.length_le_card
    rw [Fintype.card_fin] at this
    exact Nat.lt_succ_of_le this
  have hsel : ∀ u ∈ d v, (s.tasks u).selector ≠ 0 := fun u hu => (hi.waitLive u v ((hi.waitMem v hv u).mp hu)).1.1
  obtain ⟨h, hroused, hq⟩ := foldl_wake hnd hi.toQueued hsel
  have hhead : ckLinkedListHead s.waits v = ((d v).map Addr.node).headD (.dummy v) := hi.waits.head hv
  refine ⟨h, ?_, hq⟩
  rw [hhead, wakeLoop_ring v (d v) [] s _ hlen (hi.waits.ring v hv), hroused]

theorem JoinInv.depart (hk : v ≠ kernelTask) : ∃ r s', Clubcos.depart s v = some (r, s') ∧ Left s c (d v) v r s' := by
  obtain ⟨h, hloop, hq⟩ := JoinInv.wakeLoop hi hv
  obtain ⟨p, hp, hpar⟩ := hi.process v hv hk
  let s₁ : TaskStruct := { rousedAll s (d v) h with
    pLastTaskUsedFPU := if s.pLastTaskUsedFPU = some v then none else s.pLastTaskUsedFPU }
  have hq₁ : Queued s₁ (rousedLists s c (d v)) := hq.frame (fun j => ⟨rfl, rfl, rfl⟩) rfl rfl
  have hproc : ∀ j, (s₁.tasks j).pProcess = (s.tasks j).pProcess := by
    intro j
    show (if j ∈ d v then roused (s.tasks j) else s.tasks j).pProcess = _
    split <;> rfl
  have hdep : Clubcos.depart s v = some (leaveProcess s₁ v p) := by
    unfold Clubcos.depart
    rw [hloop]
    show ((s₁.tasks v).pProcess.bind fun p => some (leaveProcess s₁ v p)) = _
    rw [hproc, hp]
    rfl
  rw [hdep]
  unfold leaveProcess
  by_cases hm : (s.processes p).pMainThread = some v
  · have hm₁ : ¬ (s₁.processes p).pMainThread ≠ some v := not_not_intro hm
    rw [if_neg hm₁]
    refine ⟨_, _, rfl, hq₁.frame (fun j => ⟨rfl, rfl, rfl⟩) rfl rfl, fun j => ?_, fun j _ => hproc j, fun q => ?_, ?_, rfl, rfl⟩
    · rfl
    · by_cases e : q = p
      · subst e
        have hself : (s₁.setProcess q fun p => { p with pMainThread := none }).processes q =
            { s.processes q with pMainThread := none } := Function.update_self _ _ _
        rw [hself]
        exact ⟨rfl, Or.inr rfl⟩
      · have hkeep : (s₁.setProcess p fun p => { p with pMainThread := none }).processes q = s.processes q :=
          Function.update_of_ne e _ _
        rw [hkeep]
        exact ⟨rfl, Or.inl rfl⟩
    · rintro q ⟨⟩
      exact ⟨hp, hm⟩
  · have hm₁ : (s₁.processes p).pMainThread ≠ some v := hm
    rw [if_pos hm₁]
    let s₂ : TaskStruct := ({ s₁ with threads := ckLinkedListErase s₁.threads p v } : TaskStruct).setTask v
      fun t => { t with pProcess := none }
    have hkeep : ∀ {α : Type} (g : Task → α), (∀ t : Task, g { t with pProcess := none } = g t) →
        ∀ j, g (s₂.tasks j) = g (s₁.tasks j) := fun g hg j => setTask_keep _ v _ g (hg _) j
    refine ⟨_, s₂, rfl, hq₁.frame (fun j => ⟨?_, ?_, ?_⟩) rfl rfl, fun j => ?_, fun j hj => ?_, fun q => ⟨rfl, Or.inl rfl⟩, ?_,
      rfl, rfl⟩
    · exact hkeep Task.selector (fun _ => rfl) j
    · exact hkeep Task.flag (fun _ => rfl) j
    · exact hkeep Task.priority (fun _ => rfl) j
    · by_cases e : j = v
      · have hself : s₂.tasks j = { s₁.tasks j with pProcess := none } := by
          rw [e]
          exact setTask_self _ v _
        rw [hself]
        rfl
      · have hself : s₂.tasks j = s₁.tasks j := setTask_ne _ v _ e
        rw [hself]
        rfl
    · rw [show s₂.tasks j = s₁.tasks j from setTask_ne _ v _ hj]
      exact hproc j
    · rintro q ⟨⟩

end

/-- the fields of a slot that the scheduler looks at -/
theorem Left.fields {s s' : TaskStruct} {c : SchedList → List TaskPtr} {js : List TaskPtr} {v : TaskPtr}
    {r : Option ProcPtr} (hl : Left s c js v r s') (j : TaskPtr) : (s'.tasks j).selector = (s.tasks j).selector ∧
    (s'.tasks j).flag = (if j ∈ js ∧ (s.tasks j).flag = .wait then .ready else (s.tasks j).flag) ∧
    (s'.tasks j).waitObj = (if j ∈ js then none else (s.tasks j).waitObj) := by
  rw [hl.tasks]
  by_cases e : j ∈ js
  · simp [e, roused]
  · simp [e]

/-! ## the slot is freed -/

theorem Queued.kill {s : TaskStruct} {c : SchedList → List TaskPtr} (hi : Queued s c) {v : TaskPtr} (hne : v ≠ s.pNow)
    {l : SchedList} (hl : s.place v = some l) (r : Option ProcPtr) (h : Heap TaskPtr TaskPtr) (g : Pages) :
    Queued (killed s v r (ckLinkedListErase s.nodes l v) h g) (fun l => (c l).erase v) := by
  have hv : v ∈ c l := (hi.mem l v).mpr hl
  have hlists : Function.update c l ((c l).erase v) = fun l => (c l).erase v := by
    funext l'
    by_cases e : l' = l
    · rw [e, Function.update_self]
    · rw [Function.update_of_ne e, List.erase_of_not_mem]
      exact fun h => e (hi.lists.apart l' l v trivial trivial h hv)
  refine ⟨hlists ▸ hi.lists.erase trivial hv, fun l' t => ?_, ?_, fun t hs hf => ?_⟩
  · by_cases e : t = v
    · rw [e, TaskStruct.place, killed_self, place_free rfl]
      exact iff_of_false (hi.lists.nodup l' trivial).not_mem_erase (fun h => by cases h)
    · rw [List.mem_erase_of_ne e, hi.mem, TaskStruct.place, TaskStruct.place, killed_ne e]
  · have hnow : (killed s v r (ckLinkedListErase s.nodes l v) h g).pNow = s.pNow := rfl
    unfold Running
    rw [hnow, killed_ne hne.symm]
    exact hi.running
  · by_cases e : t = v
    · rw [e, killed_self] at hs
      exact absurd rfl hs
    · rw [killed_ne e] at hs hf
      exact hi.single t hs hf

/-- what the termination of the task `v` is to do; `c` and `c'` are the lists before and after it.  Each task that was
joined goes from `WaitList` to its `ReadyList`, and `v` leaves the one list that it is in. -/
structure Terminated (s : TaskStruct) (c : SchedList → List TaskPtr) (d : TaskPtr → List TaskPtr) (v : TaskPtr)
    (s' : TaskStruct) (c' : SchedList → List TaskPtr) : Prop where
  inv : ∃ d', JoinInv s' c' d'
  lists : ∀ l, c' l = (rousedLists s c (d v) l).erase v
  gone : ∀ l, v ∉ c' l
  size : ∀ l, s'.nodes.size l = (rousedLists s c (d v) l).length - if v ∈ rousedLists s c (d v) l then 1 else 0
  slot : (s'.tasks v).selector = 0
  joined : ∀ u, (s.tasks u).waitObj = some v → (s'.tasks u).flag = .ready ∧ (s'.tasks u).waitObj = none

/-- the victim is READY and joins nobody, or it is joined and WAIT, or joined on itself; and the current task is not joined
on it -/
structure Killable (s : TaskStruct) (v : TaskPtr) : Prop where
  ready : (s.tasks v).waitObj = none → (s.tasks v).flag = .ready
  wait : ∀ w, (s.tasks v).waitObj = some w → w = v ∨ (s.tasks v).flag = .wait
  now : (s.tasks s.pNow).waitObj ≠ some v

theorem killable_iff {s : TaskStruct} {v : TaskPtr} : Killable s v ↔
    (((s.tasks v).waitObj = none → (s.tasks v).flag = .ready) ∧
      ∀ w, (s.tasks v).waitObj = some w → w = v ∨ (s.tasks v).flag = .wait) ∧ (s.tasks s.pNow).waitObj ≠ some v :=
  ⟨fun h => ⟨⟨h.ready, h.wait⟩, h.now⟩, fun h => ⟨h.1.1, h.1.2, h.2⟩⟩

section
variable {s : TaskStruct} {c : SchedList → List TaskPtr} {d : TaskPtr → List TaskPtr} (hi : JoinInv s c d)
  {v : TaskPtr} (hv : (s.tasks v).Live) {r : Option ProcPtr} {s' : TaskStruct} (hl : Left s c (d v) v r s')
include hi hv hl

/-- whoever was joined is so no longer, and the others are as before -/
theorem Left.waitObj (u : TaskPtr) :
    (s'.tasks u).waitObj = if (s.tasks u).waitObj = some v then none else (s.tasks u).waitObj := by
  rw [(hl.fields u).2.2]
  simp only [hi.waitMem v hv u]

theorem Left.live (u : TaskPtr) : (s'.tasks u).Live ↔ (s.tasks u).Live := by
  obtain ⟨hsel, hflag, _⟩ := hl.fields u
  unfold Task.Live
  rw [hsel, hflag]
  by_cases e : u ∈ d v ∧ (s.tasks u).flag = .wait
  · rw [if_pos e, e.2]
    exact and_congr_right fun _ => iff_of_true (fun h => by cases h) fun h => by cases h
  · rw [if_neg e]

/-- **The invariant after the slot was freed**; `h` are the `WaitMeList`s without the victim -/
theorem JoinInv.kill (hk : v ≠ kernelTask) (hne : v ≠ s.pNow) {l : SchedList} (hplace : s'.place v = some l)
    {h : Heap TaskPtr TaskPtr}
    (hw : Lists h (fun t => (s.tasks t).Live ∧ t ≠ v) fun t => (d t).erase v) (g : Pages) :
    JoinInv (killed s' v r (ckLinkedListErase s'.nodes l v) h g)
      (fun l => (rousedLists s c (d v) l).erase v) (fun t => (d t).erase v) := by
  have hlive : ∀ t, ((killed s' v r (ckLinkedListErase s'.nodes l v) h g).tasks t).Live ↔
      (s.tasks t).Live ∧ t ≠ v := by
    intro t
    rw [killed_live, Left.live hi hv hl]
  have hself : ((killed s' v r (ckLinkedListErase s'.nodes l v) h g).tasks v).waitObj = none := by
    rw [killed_self]
  have hwo : ∀ u t, t ≠ v → (((killed s' v r (ckLinkedListErase s'.nodes l v) h g).tasks u).waitObj = some t ↔
      u ≠ v ∧ (s.tasks u).waitObj = some t) := by
    intro u t ht
    by_cases e : u = v
    · rw [e, hself]
      exact iff_of_false (fun h => by cases h) fun h => h.1 rfl
    · rw [killed_ne e, Left.waitObj hi hv hl]
      by_cases hu : (s.tasks u).waitObj = some v
      · rw [if_pos hu, hu]
        exact iff_of_false (fun h => by cases h) fun h => ht (Option.some.inj h.2).symm
      · rw [if_neg hu, and_iff_right e]
  refine ⟨hl.queued.kill (hl.now ▸ hne) hplace r h g, ?_, fun t ht u => ?_, fun u t ht => ?_, fun t ht htk => ?_⟩
  · exact hw.mono fun t ht => (hlive t).mp ht
  · obtain ⟨htl, htv⟩ := (hlive t).mp ht
    rw [hwo u t htv, (hi.waits.nodup t htl).mem_erase_iff, hi.waitMem t htl]
  · have htv : t ≠ v := by
      rintro rfl
      by_cases e : u = t
      · rw [e, hself] at ht
        cases ht
      · rw [killed_ne e, Left.waitObj hi hv hl] at ht
        split at ht
        · cases ht
        · exact absurd ht ‹_›
    obtain ⟨huv, hu⟩ := (hwo u t htv).mp ht
    obtain ⟨hul, htl⟩ := hi.waitLive u t hu
    exact ⟨(hlive u).mpr ⟨hul, huv⟩, (hlive t).mpr ⟨htl, htv⟩⟩
  · obtain ⟨htl, htv⟩ := (hlive t).mp ht
    obtain ⟨p, hp, hpar⟩ := hi.process t htl htk
    rw [killed_ne htv, hl.process t htv]
    refine ⟨p, hp, fun hm => ?_⟩
    show (s'.processes p).pParentProcess ≠ none
    rw [(hl.processes p).1]
    rcases (hl.processes p).2 with e | e
    · exact hpar (e.symm.trans hm)
    · exact absurd (e.symm.trans hm) (fun h => by cases h)

/-- what is left to show once the slot was freed -/
theorem Terminated.intro (hk : v ≠ kernelTask) (hne : v ≠ s.pNow) (hnow : (s.tasks s.pNow).waitObj ≠ some v) {l : SchedList}
    (hplace : s'.place v = some l) {h : Heap TaskPtr TaskPtr}
    (hw : Lists h (fun t => (s.tasks t).Live ∧ t ≠ v) fun t => (d t).erase v) (g : Pages) :
    Terminated s c d v (killed s' v r (ckLinkedListErase s'.nodes l v) h g)
      (fun l => (rousedLists s c (d v) l).erase v) := by
  have hi' := JoinInv.kill hi hv hl hk hne hplace hw g
  refine ⟨⟨_, hi'⟩, fun _ => rfl, fun l' => ?_, fun l' => ?_, ?_, fun u hu => ?_⟩
  · exact (hl.queued.lists.nodup l' trivial).not_mem_erase
  · have hlen := maxTask_lt (hi'.lists.nodup l' trivial)
    rw [hi'.lists.size l' trivial, u32_of_lt hlen]
    by_cases hm : v ∈ rousedLists s c (d v) l'
    · rw [if_pos hm, List.length_erase_of_mem hm]
    · rw [if_neg hm, List.erase_of_not_mem hm]
      rfl
  · rw [killed_self]
  · -- a joined task was WAIT or READY, since the current one is not joined
    have hmem : u ∈ d v := (hi.waitMem v hv u).mpr hu
    have hflag : (s'.tasks u).flag = .ready := by
      rw [(hl.fields u).2.1]
      by_cases hf : (s.tasks u).flag = .wait
      · exact if_pos ⟨hmem, hf⟩
      · rw [if_neg fun h => hf h.2]
        obtain ⟨hsel, hexit⟩ := (hi.waitLive u v hu).1
        cases hf' : (s.tasks u).flag with
        | running => exact absurd (hi.single u hsel hf' ▸ hu) hnow
        | ready => rfl
        | wait => exact absurd hf' hf
        | waitForExit => exact absurd hf' hexit
    by_cases e : u = v
    · rw [← e, killed_self]
      exact ⟨hflag, rfl⟩
    · rw [killed_ne e, Left.waitObj hi hv hl, if_pos hu]
      exact ⟨hflag, rfl⟩

/-- how the flag and `WaitObj` of the victim fit together, before and after the tasks that are joined on it were woken -/
theorem Left.fits_iff (hne : v ≠ s.pNow) :
    ((s'.tasks v).waitObj = none → (s'.tasks v).flag = .ready) ∧
      ((s'.tasks v).waitObj ≠ none → (s'.tasks v).flag = .wait) ↔
    ((s.tasks v).waitObj = none → (s.tasks v).flag = .ready) ∧
      ∀ w, (s.tasks v).waitObj = some w → w = v ∨ (s.tasks v).flag = .wait := by
  have hflag := (hl.fields v).2.1
  have hwo := Left.waitObj hi hv hl v
  have hmem := hi.waitMem v hv v
  by_cases hself : (s.tasks v).waitObj = some v
  · -- it is joined on itself, and is woken like the others
    have hready : (s'.tasks v).flag = .ready := by
      rw [hflag]
      by_cases hf : (s.tasks v).flag = .wait
      · exact if_pos ⟨hmem.mpr hself, hf⟩
      · rw [if_neg fun h => hf h.2]
        cases hf' : (s.tasks v).flag with
        | running => exact absurd (hi.single v hv.1 hf') hne
        | ready => rfl
        | wait => exact absurd hf' hf
        | waitForExit => exact absurd hf' hv.2
    rw [if_pos hself] at hwo
    refine iff_of_true ⟨fun _ => hready, fun h => absurd hwo h⟩ ⟨fun h => ?_, fun w hw => Or.inl ?_⟩
    · rw [hself] at h
      cases h
    · exact (Option.some.inj (hself.symm.trans hw)).symm
  · have hnot : v ∉ d v := fun h => hself (hmem.mp h)
    rw [if_neg hself] at hwo
    rw [hflag, hwo, if_neg fun h => hnot h.1]
    refine and_congr_right fun _ => ⟨fun h w hw => Or.inr (h ?_), fun h hw => ?_⟩
    · rw [hw]
      exact Option.some_ne_none w
    · obtain ⟨w, hw⟩ := Option.ne_none_iff_exists'.mp hw
      refine (h w hw).resolve_left ?_
      rintro rfl
      exact hself hw

/-- the `WaitMeList`s after the victim left the one that it was in -/
theorem JoinInv.unjoined : (∀ w, (s'.tasks v).waitObj = some w →
      Lists (ckLinkedListErase s'.waits w v) (fun t => (s.tasks t).Live ∧ t ≠ v) fun t => (d t).erase v) ∧
    ((s'.tasks v).waitObj = none → Lists s'.waits (fun t => (s.tasks t).Live ∧ t ≠ v) fun t => (d t).erase v) := by
  have hwo := Left.waitObj hi hv hl v
  have hmem : ∀ t, (s.tasks t).Live → (v ∈ d t ↔ (s.tasks v).waitObj = some t) := fun t ht => hi.waitMem t ht v
  rw [hl.waits]
  refine ⟨fun w hw => ?_, fun hnone => ?_⟩
  · have hjoined : (s.tasks v).waitObj = some w := by
      rw [hwo] at hw
      split at hw
      · cases hw
      · exact hw
    have hlive := (hi.waitLive v w hjoined).2
    refine ((hi.waits.erase hlive ((hmem w hlive).mpr hjoined)).congr fun t ht => ?_).mono fun t ht => ht.1
    by_cases e : t = w
    · rw [e, Function.update_self]
    · rw [Function.update_of_ne e, List.erase_of_not_mem]
      intro h
      exact e (Option.some.inj (((hmem t ht).mp h).symm.trans hjoined))
  · refine (hi.waits.mono fun t ht => ht.1).congr fun t ht => (List.erase_of_not_mem fun h => ?_).symm
    have hjoined := (hmem t ht.1).mp h
    rw [hwo, hjoined] at hnone
    split at hnone
    · exact ht.2 (Option.some.inj ‹_›)
    · cases hnone

end

/-- `ckTaskTerminate` comes back and does its work -/
def TerminatesOther (s : TaskStruct) (c : SchedList → List TaskPtr) (d : TaskPtr → List TaskPtr) (taskId : Nat)
    (v : TaskPtr) (hw : Bool) : Prop :=
  ∃ s' c', ckTaskTerminate s taskId hw = some (true, s') ∧ Terminated s c d v s' c'

section
variable {s : TaskStruct} {c : SchedList → List TaskPtr} {d : TaskPtr → List TaskPtr} (hi : JoinInv s c d)
include hi

theorem terminate_other {taskId : Nat} (hid : taskId ≠ kernelTaskId ∧ taskId ≠ idleTaskId) {v : TaskPtr}
    (ht : csGetTaskFromId s taskId = some v) (hk : v ≠ kernelTask) (hne : v ≠ s.pNow) (hw : Bool) :
    ∃ r s', Left s c (d v) v r s' ∧ (∀ p, r = some p → (s'.processes p).pParentProcess ≠ none) ∧
      ckTaskTerminate s taskId hw = (killOther s' v r).map fun s' => (true, s') := by
  have hv := (csGetTaskFromId_some ht).1
  obtain ⟨r, s', hdep, hl⟩ := hi.depart hv hk
  refine ⟨r, s', hl, fun p hp => ?_, ?_⟩
  · obtain ⟨hproc, hm⟩ := hl.cleanup p hp
    obtain ⟨q, hq, hparent⟩ := hi.process v hv hk
    obtain rfl : q = p := Option.some.inj (hq.symm.trans hproc)
    rw [(hl.processes q).1]
    exact hparent hm
  · have hint : ckTaskTerminate_internal s v hw = killOther s' v r := by
      unfold ckTaskTerminate_internal
      rw [hdep]
      exact if_neg (hl.now ▸ hne)
    unfold ckTaskTerminate
    rw [if_pos hid, ht]
    show ((ckTaskTerminate_internal s v hw).bind fun s' => some (true, s')) = _
    rw [hint]
    cases killOther s' v r <;> rfl

/-- **Termination of a task other than the current one** does its work exactly if its flag and its `WaitObj` fit together
and the current task is not joined on it. -/
theorem terminate_iff {taskId : Nat} (hid : taskId ≠ kernelTaskId ∧ taskId ≠ idleTaskId) {v : TaskPtr}
    (ht : csGetTaskFromId s taskId = some v) (hk : v ≠ kernelTask) (hne : v ≠ s.pNow) (hw : Bool) :
    TerminatesOther s c d taskId v hw ↔ Killable s v := by
  have hv := (csGetTaskFromId_some ht).1
  obtain ⟨r, s₁, hl, hpar, hcall⟩ := terminate_other hi hid ht hk hne hw
  have hfits := Left.fits_iff hi hv hl hne
  have hunjoined := JoinInv.unjoined hi hv hl
  have hsel : (s₁.tasks v).selector ≠ 0 := (hl.fields v).1.trans_ne hv.1
  -- the current task keeps its flag
  have hnow : ∀ {h h' g c'}, Terminated s c d v (killed s₁ v r h h' g) c' → (s.tasks s.pNow).waitObj ≠ some v := by
    intro h h' g c' hterm hjoined
    have hready := (hterm.joined s.pNow hjoined).1
    have hkeep : (killed s₁ v r h h' g).tasks s.pNow = s₁.tasks s.pNow := killed_ne (Ne.symm hne)
    rw [hkeep, (hl.fields s.pNow).2.1, hi.running.2, if_neg (fun h => by cases h.2)] at hready
    cases hready
  rw [killable_iff, ← hfits]
  unfold TerminatesOther
  rw [hcall]
  rcases killOther_cases s₁ v hpar with ⟨w, g, hwo, hf, e⟩ | ⟨g, hwo, hf, e⟩ | ⟨hready, hwait, e⟩
  · rw [e]
    constructor
    · rintro ⟨s', c', h, hterm⟩
      cases h
      exact ⟨⟨fun h => absurd (hwo.symm.trans h) (Option.some_ne_none w), fun _ => hf⟩, hnow hterm⟩
    · rintro ⟨-, hn⟩
      exact ⟨_, _, rfl, Terminated.intro hi hv hl hk hne hn (place_wait hsel hf) (hunjoined.1 w hwo) g⟩
  · rw [e]
    constructor
    · rintro ⟨s', c', h, hterm⟩
      cases h
      exact ⟨⟨fun _ => hf, fun h => absurd hwo h⟩, hnow hterm⟩
    · rintro ⟨-, hn⟩
      exact ⟨_, _, rfl, Terminated.intro hi hv hl hk hne hn (place_ready hsel hf) (hunjoined.2 hwo) g⟩
  · rw [e]
    refine iff_of_false ?_ ?_
    · rintro ⟨s', c', h, -⟩
      cases h
    · rintro ⟨⟨h1, h2⟩, -⟩
      by_cases hwo : (s₁.tasks v).waitObj = none
      · exact hready hwo (h1 hwo)
      · exact hwait hwo (h2 hwo)

end

/-- a task waits for the kernel task, which ends it -/
theorem terminate_iff_joinRun : ∃ c d, JoinInv joinState c d ∧ (joinState.tasks 2).waitObj = some kernelTask ∧
    TerminatesOther joinState c d 4098 2 true := by
  have hreach : Reach 0 Op.Proper joinState :=
    execAll_reach (.boot 0 fun _ => 0) (Option.some_get joinRun_some).symm
  have hwait : (joinState.tasks 2).waitObj = some kernelTask ∧ (joinState.tasks 2).flag = .wait ∧
      (joinState.tasks joinState.pNow).waitObj = none := by decide +kernel
  obtain ⟨c, d, hi⟩ := (hreach.inv fun _ _ h => h).joinInv
  have hkill : Killable joinState 2 := by
    refine ⟨fun h => ?_, fun w _ => Or.inr hwait.2.1, fun h => ?_⟩
    · rw [hwait.1] at h
      cases h
    · rw [hwait.2.2] at h
      cases h
  refine ⟨c, d, hi, hwait.1, (terminate_iff hi (by decide) ?_ (by decide) ?_ true).mpr hkill⟩
  · decide +kernel
  · decide +kernel

/-! ## a task that suspended itself -/

/-- the task that suspends itself keeps what the others are joined on -/
theorem JoinInv.suspend {s : TaskStruct} {c : SchedList → List TaskPtr} {d : TaskPtr → List TaskPtr}
    (hi : JoinInv s c d) (hr : ∃ u, (s.tasks u).selector ≠ 0 ∧ (s.tasks u).flag = .ready) (hw : Bool) :
    ∃ s' c', ckTaskSuspend_byptr s s.pNow hw = some (true, s') ∧ Suspended s c s.pNow s' c' ∧ JoinInv s' c' d ∧
      (s'.tasks s.pNow).waitObj = (s.tasks s.pNow).waitObj := by
  obtain ⟨s', c', e, hsus, u, p, hu, hs⟩ := suspend_current hi.toQueued hr hw
  obtain ⟨cpu, htasks⟩ := hs.tasks
  obtain ⟨cpu', hprocs⟩ := hs.processes
  have hlive : ∀ j, (s'.tasks j).Live ↔ (s.tasks j).Live := by
    intro j
    rw [hs.live hu]
    by_cases ej : j = s.pNow
    · rw [ej, suspending_self]
      refine iff_of_true ⟨hi.running.1, fun h => by cases h⟩ ⟨hi.running.1, fun h => ?_⟩
      rw [hi.running.2] at h
      cases h
    · rw [suspending_ne s.nodes ej]
  have hkeep : ∀ j, (s'.tasks j).waitObj = (s.tasks j).waitObj ∧ (s'.tasks j).pProcess = (s.tasks j).pProcess := by
    intro j
    rw [htasks]
    by_cases ej : j = s.pNow
    · simp only [ej, suspending_self, and_self]
    · simp only [suspending_ne s.nodes ej, and_self]
  refine ⟨s', c', e, hsus, ⟨hsus.queued, ?_, fun t ht v => ?_, fun v t h => ?_, fun t ht hk => ?_⟩, (hkeep _).1⟩
  · rw [hs.waits]
    exact hi.waits.mono fun t ht => (hlive t).mp ht
  · rw [(hkeep v).1]
    exact hi.waitMem t ((hlive t).mp ht) v
  · rw [(hkeep v).1] at h
    obtain ⟨h1, h2⟩ := hi.waitLive v t h
    exact ⟨(hlive v).mpr h1, (hlive t).mpr h2⟩
  · rw [(hkeep t).2, hprocs]
    exact hi.process t ((hlive t).mp ht) hk

/-- **A task that suspended itself** is WAIT and joins nobody: its termination fails an assertion. -/
theorem suspended_victim : ∃ s c d, ckTaskSuspend dispatchState 4098 true = some (true, s) ∧ JoinInv s c d ∧
    csGetTaskFromId s 4098 = some 2 ∧ s.pNow ≠ 2 ∧ (s.tasks 2).flag = .wait ∧ (s.tasks 2).waitObj = none ∧
    ckTaskTerminate s 4098 true = none ∧ ¬ TerminatesOther s c d 4098 2 true := by
  obtain ⟨c, d, hi⟩ := dispatchState_inv.joinInv
  have hready : (dispatchState.tasks kernelTask).selector ≠ 0 ∧ (dispatchState.tasks kernelTask).flag = .ready := by
    decide +kernel
  have hnow : dispatchState.pNow = 2 ∧ csGetTaskFromId dispatchState 4098 = some 2 ∧
      (dispatchState.tasks 2).waitObj = none := by decide +kernel
  have hcall : ckTaskSuspend dispatchState 4098 true = ckTaskSuspend_byptr dispatchState dispatchState.pNow true := by
    unfold ckTaskSuspend
    rw [if_pos (by decide), hnow.2.1, hnow.1]
  obtain ⟨s, c', e, hsus, hi', hwo⟩ := hi.suspend ⟨kernelTask, hready⟩ true
  rw [← hcall] at e
  have hrun : ((ckTaskSuspend dispatchState 4098 true).bind fun x => ckTaskTerminate x.2 4098 true).isNone ∧
      ((ckTaskSuspend dispatchState 4098 true).map fun x =>
        (csGetTaskFromId x.2 4098, x.2.pNow)) = some (some 2, kernelTask) := by decide +kernel
  rw [e] at hrun
  have hnone : ckTaskTerminate s 4098 true = none := Option.isNone_iff_eq_none.mp hrun.1
  have hstate := Option.some.inj hrun.2
  refine ⟨s, c', d, e, hi', congrArg Prod.fst hstate, ?_, ?_, ?_, hnone, ?_⟩
  · rw [show s.pNow = kernelTask from congrArg Prod.snd hstate]
    decide
  · exact hnow.1 ▸ hsus.flag
  · rw [hnow.1] at hwo
    exact hwo.trans hnow.2.2
  · rintro ⟨s', c₁, h, -⟩
    rw [hnone] at h
    cases h

end Clubcos
