import Clubcos.Task.Create

/-!
# Termination

* `wakeLoop_eq`    the loop over `WaitMeList` makes every waiting task READY;
* `Departed`       the state after a task has left what it has to do with other tasks;
* `reap_eq`        what freeing a slot changes;
* `terminate_inv`  **termination comes back and keeps the invariant**, for the current task and for others.
-/

set_option linter.unusedVariables false
set_option linter.unusedSectionVars false

namespace Clubcos
open Word Ring

/-! ## waking the tasks that wait -/

/-- a waiting task that waits no longer -/
def awake (t : Task) : Task := { t with waitObj := none, flag := .ready }

theorem wake_eq {s : TaskStruct} {t : TaskPtr} (h : (s.tasks t).flag = .wait) :
    wake s t = { s with
      tasks := Function.update s.tasks t (awake (s.tasks t))
      nodes := ckLinkedListPushBack_lockfree (ckLinkedListErase s.nodes .wait t)
        (.ready (s.tasks t).priority) t } := by
  have hflag : ((s.setTask t fun t => { t with waitObj := none }).tasks t).flag = .wait := by
    rw [setTask_self]
    exact h
  unfold wake ckTaskResume_byptr
  rw [if_pos hflag]
  refine congrArg₂ (fun f g => ({ s with tasks := f, nodes := g } : TaskStruct)) ?_ ?_
  · exact update_twice s.tasks t (fun t => { t with waitObj := none }) (fun t => { t with flag := .ready })
  · simp only [TaskStruct.setTask, Function.update_self]

theorem wake_waits (s : TaskStruct) (t : TaskPtr) : (wake s t).waits = s.waits := by
  unfold wake ckTaskResume_byptr
  split <;> rfl

/-- the loop runs along the ring of `WaitMeList`; `ts` is what is left of it -/
theorem wakeLoop_ring (u : TaskPtr) (ts : List TaskPtr) : ∀ (xs : List TaskPtr) (s : TaskStruct) (fuel : Nat),
    ts.length < fuel → IsRing s.waits.links (.dummy u) ((xs ++ ts).map .node) →
    wakeLoop u fuel ((ts.map Addr.node).headD (.dummy u)) s = some (ts.foldl wake s) := by
  induction ts with
  | nil =>
    intro xs s fuel hf hr
    obtain ⟨fuel, rfl⟩ := Nat.exists_eq_succ_of_ne_zero (Nat.ne_of_gt hf)
    exact if_pos rfl
  | cons t ts ih =>
    intro xs s fuel hf hr
    obtain ⟨fuel, rfl⟩ := Nat.exists_eq_succ_of_ne_zero (Nat.ne_of_gt (Nat.zero_lt_of_lt hf))
    have hne : ¬ (Addr.node t : Addr TaskPtr TaskPtr) = .dummy u := fun e => by cases e
    have hnext : (wake s t).waits.pNext (.node t) = (ts.map Addr.node).headD (.dummy u) := by
      rw [wake_waits]
      rw [List.map_append, List.map_cons] at hr
      exact hr.next_mem
    show (if (Addr.node t : Addr TaskPtr TaskPtr) = .dummy u then some s
      else wakeLoop u fuel ((wake s t).waits.pNext (.node t)) (wake s t)) = _
    rw [if_neg hne, hnext]
    refine ih (xs ++ [t]) (wake s t) fuel (Nat.lt_of_succ_lt_succ hf) ?_
    rwa [wake_waits, List.append_assoc]

/-- the loop changes slots and lists only -/
theorem wakeLoop_frame {u : TaskPtr} {s' : TaskStruct} : ∀ {fuel : Nat} {a : Addr TaskPtr TaskPtr} {s : TaskStruct},
    wakeLoop u fuel a s = some s' → ∃ f g, s' = { s with tasks := f, nodes := g }
  | 0, a, s, h => by cases h
  | fuel + 1, a, s, h => by
    unfold wakeLoop at h
    split at h
    · cases h
      exact ⟨s'.tasks, s'.nodes, rfl⟩
    · split at h
      · rename_i t _
        obtain ⟨f, g, e⟩ := wakeLoop_frame h
        have hwake : ∃ f g, wake s t = { s with tasks := f, nodes := g } := by
          unfold wake ckTaskResume_byptr
          split <;> exact ⟨_, _, rfl⟩
        obtain ⟨f', g', e'⟩ := hwake
        rw [e'] at e
        exact ⟨f, g, e⟩
      · cases h

/-- a task goes from `WaitList` to a `ReadyList`, and so says its flag -/
theorem Located.toReady {s s' : TaskStruct} (hl : Located s.nodes (fun _ => True) s.place) {t : TaskPtr}
    {p : TaskPriority} (hplace : s.place t = some .wait) (hother : ∀ j, j ≠ t → s'.tasks j = s.tasks j)
    (hself : s'.place t = some (.ready p)) (hnodes : s'.nodes = ckLinkedListPushBack_lockfree
      (ckLinkedListErase s.nodes .wait t) (.ready p) t) : Located s'.nodes (fun _ => True) s'.place := by
  have herase := hl.erase trivial hplace
  have hpush := herase.push (l := .ready p) (n := t) trivial fun l _ h => by
    rw [Function.update_self] at h
    cases h
  rw [Function.update_idem] at hpush
  rw [hnodes]
  refine hpush.congr fun l _ j => ?_
  by_cases e : j = t
  · rw [e, Function.update_self, hself]
  · rw [Function.update_of_ne e, TaskStruct.place, TaskStruct.place, hother j e]

/-- waking tasks one after the other -/
theorem wakes (ts : List TaskPtr) : ∀ {s : TaskStruct}, ts.Nodup → (∀ t ∈ ts, s.place t = some .wait) →
    Located s.nodes (fun _ => True) s.place → ∃ h, ts.foldl wake s = { s with
      tasks := fun j => if j ∈ ts then awake (s.tasks j) else s.tasks j, nodes := h } ∧
    Located h (fun _ => True) (fun j => if j ∈ ts then some (.ready (s.tasks j).priority) else s.place j) := by
  induction ts with
  | nil => exact fun {s} _ _ hl => ⟨s.nodes, rfl, hl⟩
  | cons t ts ih =>
    intro s hnd hw hl
    obtain ⟨ht, hnd'⟩ := List.nodup_cons.mp hnd
    have hplace := hw t List.mem_cons_self
    have hflag := (wait_of_place hplace).2
    have hother : ∀ j, j ≠ t → (wake s t).tasks j = s.tasks j := by
      intro j e
      rw [wake_eq hflag]
      exact Function.update_of_ne e _ _
    have hself : (wake s t).tasks t = awake (s.tasks t) := by
      rw [wake_eq hflag]
      exact Function.update_self _ _ _
    have hself' : (wake s t).place t = some (.ready (s.tasks t).priority) := by
      rw [TaskStruct.place, hself]
      exact place_ready (wait_of_place hplace).1 rfl
    have hnodes : (wake s t).nodes = ckLinkedListPushBack_lockfree (ckLinkedListErase s.nodes .wait t)
        (.ready (s.tasks t).priority) t := by rw [wake_eq hflag]
    have hl' : Located (wake s t).nodes (fun _ => True) (wake s t).place := hl.toReady hplace hother hself' hnodes
    have hne : ∀ j ∈ ts, j ≠ t := fun j hj e => ht (e ▸ hj)
    obtain ⟨h, e, hloc⟩ := ih hnd' (fun j hj => by
      rw [TaskStruct.place, hother j (hne j hj)]
      exact hw j (List.mem_cons_of_mem _ hj)) hl'
    refine ⟨h, ?_, hloc.congr fun l _ j => ?_⟩
    · rw [List.foldl_cons, e, wake_eq hflag]
      refine congrArg (fun f => ({ s with tasks := f, nodes := h } : TaskStruct)) (funext fun j => ?_)
      by_cases ej : j = t
      · rw [ej, if_neg ht, if_pos List.mem_cons_self]
        exact Function.update_self _ _ _
      · show (if j ∈ ts then awake (Function.update s.tasks t _ j) else Function.update s.tasks t _ j) = _
        rw [Function.update_of_ne ej]
        simp only [List.mem_cons, ej, false_or]
    · by_cases ej : j = t
      · rw [ej, if_neg ht, if_pos List.mem_cons_self, hself']
      · simp only [List.mem_cons, ej, false_or]
        rw [hother j ej, TaskStruct.place, hother j ej]
        rfl

/-- the state after all tasks that wait for `u` were woken; `h` holds the lists -/
def woken (s : TaskStruct) (u : TaskPtr) (h : Heap SchedList TaskPtr) : TaskStruct :=
  { s with tasks := fun j => if (s.tasks j).waitObj = some u then awake (s.tasks j) else s.tasks j, nodes := h }

/-- **The loop over `WaitMeList`** ends and wakes the tasks with `WaitObj = u`, all of them. -/
theorem wakeLoop_eq {s : TaskStruct} {L : TaskPtr → Prop} (hi : SchedInv s L) {u : TaskPtr} (hu : L u) :
    ∃ h, wakeLoop u (maxTask + 1) (ckLinkedListHead s.waits u) s = some (woken s u h) ∧
      Located h (fun _ => True) (woken s u h).place := by
  obtain ⟨c, hc, hmem⟩ := hi.waits
  have hmem' : ∀ j, j ∈ c u ↔ (s.tasks j).waitObj = some u := hmem u hu
  have hlen : (c u).length < maxTask + 1 := by
    have := (hc.nodup u hu).length_le_card
    rw [Fintype.card_fin] at this
    exact Nat.lt_succ_of_le this
  have hwait : ∀ t ∈ c u, s.place t = some .wait := by
    intro t ht
    obtain ⟨_, hs, hf⟩ := hi.waitObj t u ((hmem' t).mp ht)
    exact place_wait hs hf
  obtain ⟨h, e, hloc⟩ := wakes (c u) (hc.nodup u hu) hwait hi.places
  have hset : ∀ {α : Type} (x y : TaskPtr → α), (fun j => if j ∈ c u then x j else y j)
      = fun j => if (s.tasks j).waitObj = some u then x j else y j := by
    intro α x y
    funext j
    simp only [hmem' j]
  refine ⟨h, ?_, hloc.congr fun l _ j => ?_⟩
  · have hhead : ckLinkedListHead s.waits u = ((c u).map Addr.node).headD (.dummy u) := hc.head hu
    rw [hhead, wakeLoop_ring u (c u) [] s _ hlen (hc.ring u hu), e, hset]
    rfl
  · rw [TaskStruct.place]
    show _ ↔ (if (s.tasks j).waitObj = some u then awake (s.tasks j) else s.tasks j).place = some l
    by_cases hj : (s.tasks j).waitObj = some u
    · rw [if_pos ((hmem' j).mpr hj), if_pos hj]
      have hs : (awake (s.tasks j)).selector ≠ 0 := (hi.waitObj j u hj).2.1
      rw [place_ready hs rfl]
      rfl
    · rw [if_neg fun h => hj ((hmem' j).mp h), if_neg hj]

/-! ## the task that ends and the others -/

/-- the slot `j` after `u` has departed; `r` is the process that is to be cleaned up with it -/
def departedTask (s : TaskStruct) (u : TaskPtr) (r : Option ProcPtr) (j : TaskPtr) : Task :=
  let t := if (s.tasks j).waitObj = some u then awake (s.tasks j) else s.tasks j
  if j = u ∧ r = none then { t with pProcess := none } else t

/-- the state after `u` has departed -/
structure Departed (s : TaskStruct) (u : TaskPtr) (r : Option ProcPtr) (s' : TaskStruct) : Prop where
  tasks : s'.tasks = departedTask s u r
  process : ∃ p, (s.tasks u).pProcess = some p ∧
    (r = none ∧ (s.processes p).pMainThread ≠ some u ∧ s'.processes = s.processes ∧
        s'.threads = ckLinkedListErase s.threads p u ∨
      r = some p ∧ (s.processes p).pMainThread = some u ∧
        s'.processes = Function.update s.processes p { s.processes p with pMainThread := none } ∧
        s'.threads = s.threads)
  now : s'.pNow = s.pNow
  ts : s'.ts = s.ts
  fpu : s'.fpu = s.fpu
  last : s'.pLastTaskUsedFPU = if s.pLastTaskUsedFPU = some u then none else s.pLastTaskUsedFPU
  waits : s'.waits = s.waits
  children : s'.children = s.children

/-- the fields of a slot after `u` has departed that the scheduler looks at -/
theorem Departed.fields {s s' : TaskStruct} {u : TaskPtr} {r : Option ProcPtr} (hd : Departed s u r s')
    (j : TaskPtr) : (s'.tasks j).selector = (s.tasks j).selector ∧
    (s'.tasks j).flag = (if (s.tasks j).waitObj = some u then .ready else (s.tasks j).flag) ∧
    (s'.tasks j).waitObj = (if (s.tasks j).waitObj = some u then none else (s.tasks j).waitObj) ∧
    (s'.tasks j).pProcess = (if j = u ∧ r = none then none else (s.tasks j).pProcess) ∧
    (s'.tasks j).id = (s.tasks j).id := by
  rw [hd.tasks]
  unfold departedTask awake
  refine ⟨?_, ?_, ?_, ?_, ?_⟩ <;> split <;> split <;> rfl

theorem depart_spec {s : TaskStruct} {L : TaskPtr → Prop} (hi : SchedInv s L) {u : TaskPtr} (hu : L u) :
    ∃ r s', depart s u = some (r, s') ∧ Departed s u r s' ∧ Located s'.nodes (fun _ => True) s'.place := by
  obtain ⟨h, hloop, hloc⟩ := wakeLoop_eq hi hu
  obtain ⟨p, hp⟩ := Option.ne_none_iff_exists'.mp (hi.proc u hu)
  let s₁ := { woken s u h with
    pLastTaskUsedFPU := if s.pLastTaskUsedFPU = some u then none else s.pLastTaskUsedFPU }
  have hp₁ : (s₁.tasks u).pProcess = some p := by
    show (if (s.tasks u).waitObj = some u then awake (s.tasks u) else s.tasks u).pProcess = some p
    split <;> exact hp
  have hdep : depart s u = some (leaveProcess s₁ u p) := by
    unfold depart
    rw [hloop]
    show ((s₁.tasks u).pProcess.bind fun p => some (leaveProcess s₁ u p)) = _
    rw [hp₁]
    rfl
  rw [hdep]
  unfold leaveProcess
  by_cases hm : (s.processes p).pMainThread = some u
  · have hm₁ : ¬ (s₁.processes p).pMainThread ≠ some u := not_not_intro hm
    rw [if_neg hm₁]
    refine ⟨_, _, rfl, ⟨funext fun j => ?_, ⟨p, hp, Or.inr ⟨rfl, hm, rfl, rfl⟩⟩, rfl, rfl, rfl, rfl, rfl, rfl⟩, hloc⟩
    exact (if_neg fun h : j = u ∧ some p = none => by cases h.2).symm
  · have hm₁ : (s₁.processes p).pMainThread ≠ some u := hm
    rw [if_pos hm₁]
    have htasks : (({ s₁ with threads := ckLinkedListErase s₁.threads p u } : TaskStruct).setTask u
        fun t => { t with pProcess := none }).tasks = departedTask s u none := by
      funext j
      by_cases e : j = u
      · rw [e, setTask_self]
        exact (if_pos ⟨rfl, rfl⟩).symm
      · rw [setTask_ne _ _ _ e]
        exact (if_neg fun h : j = u ∧ (none : Option ProcPtr) = none => e h.1).symm
    refine ⟨none, _, rfl, ⟨htasks, ⟨p, hp, Or.inl ⟨rfl, hm, rfl, rfl⟩⟩, rfl, rfl, rfl, rfl, rfl, rfl⟩, ?_⟩
    refine hloc.congr fun l _ j => ?_
    rw [TaskStruct.place, TaskStruct.place, setTask_keep _ u (fun t => { t with pProcess := none }) Task.place rfl]

theorem leaveProcess_frame (s : TaskStruct) (u : TaskPtr) (p : ProcPtr) : ∃ f procs threads,
    (leaveProcess s u p).2 = { s with tasks := f, processes := procs, threads := threads } ∧
      ∀ q, (procs q).usedCpuTime = (s.processes q).usedCpuTime := by
  unfold leaveProcess
  split
  · exact ⟨_, _, _, rfl, fun q => rfl⟩
  · refine ⟨_, _, _, rfl, fun q => ?_⟩
    by_cases e : q = p
    · rw [e, Function.update_self]
    · rw [Function.update_of_ne e]

/-- a task that departs leaves the time that its process has used -/
theorem depart_frame {s s' : TaskStruct} {u : TaskPtr} {r : Option ProcPtr} (h : depart s u = some (r, s')) :
    ∃ f procs g threads last, s' = { s with
      tasks := f, processes := procs, nodes := g, threads := threads, pLastTaskUsedFPU := last } ∧
      ∀ q, (procs q).usedCpuTime = (s.processes q).usedCpuTime := by
  unfold depart at h
  obtain ⟨s₁, h₁, h⟩ := Option.bind_eq_some_iff.mp h
  obtain ⟨f, g, rfl⟩ := wakeLoop_frame h₁
  obtain ⟨p, _, h⟩ := Option.bind_eq_some_iff.mp h
  have hs := congrArg Prod.snd (Option.some.inj h)
  obtain ⟨f', procs, threads, e, hused⟩ := leaveProcess_frame { s with
    tasks := f, nodes := g, pLastTaskUsedFPU := if s.pLastTaskUsedFPU = some u then none else s.pLastTaskUsedFPU } u p
  exact ⟨f', procs, g, threads, _, hs.symm.trans e, hused⟩

theorem Departed.running {s s' : TaskStruct} {L : TaskPtr → Prop} {u : TaskPtr} {r : Option ProcPtr}
    (hd : Departed s u r s') (hi : SlotInv s L) {j : TaskPtr} (hrun : (s.tasks j).flag = .running) :
    (s'.tasks j).flag = .running := by
  have hno : (s.tasks j).waitObj ≠ some u := fun h => by
    have hwait := (hi.waitObj j u h).2.2
    rw [hrun] at hwait
    cases hwait
  rw [(hd.fields j).2.1, if_neg hno, hrun]

theorem Departed.not_ready {s s' : TaskStruct} {L : TaskPtr → Prop} {u : TaskPtr} {r : Option ProcPtr}
    (hd : Departed s u r s') (hi : SlotInv s L) {j : TaskPtr} (hrun : (s.tasks j).flag = .running) :
    (s'.tasks j).flag ≠ .ready := by
  rw [hd.running hi hrun]
  exact fun h => by cases h

theorem Departed.exit_iff {s s' : TaskStruct} {L : TaskPtr → Prop} {u : TaskPtr} {r : Option ProcPtr}
    (hd : Departed s u r s') (hi : SlotInv s L) (j : TaskPtr) : (s'.tasks j).selector = (s.tasks j).selector ∧
      ((s'.tasks j).flag = .waitForExit ↔ (s.tasks j).flag = .waitForExit) := by
  obtain ⟨hsel, hflag, _⟩ := hd.fields j
  refine ⟨hsel, ?_⟩
  rw [hflag]
  by_cases hw : (s.tasks j).waitObj = some u
  · rw [if_pos hw, (hi.waitObj j u hw).2.2]
    exact iff_of_false (fun h => by cases h) (fun h => by cases h)
  · rw [if_neg hw]

/-- a waiting task that is woken lives before and after -/
theorem Departed.live_iff {s s' : TaskStruct} {L : TaskPtr → Prop} {u : TaskPtr} {r : Option ProcPtr}
    (hd : Departed s u r s') (hi : SlotInv s L) (j : TaskPtr) : (s'.tasks j).Live ↔ (s.tasks j).Live := by
  obtain ⟨hsel, hexit⟩ := hd.exit_iff hi j
  unfold Task.Live
  rw [hsel]
  exact and_congr_right' (not_congr hexit)

theorem Departed.fits {s s' : TaskStruct} {L : TaskPtr → Prop} {u : TaskPtr} {r : Option ProcPtr}
    (hd : Departed s u r s') (hi : SlotInv s L)
    (hpar : ∀ q, (s'.processes q).pParentProcess = (s.processes q).pParentProcess) (j : TaskPtr) :
    SlotFits s' (fun t => L t ∧ t ≠ u) j := by
  obtain ⟨hsel, hflag, hwo, hproc, _⟩ := hd.fields j
  have h := hi.fits j
  have hcases : (s'.tasks j).flag = .ready ∧ (s'.tasks j).waitObj = none ∨
      (s'.tasks j).flag = (s.tasks j).flag ∧ (s'.tasks j).waitObj = (s.tasks j).waitObj ∧
        (s.tasks j).waitObj ≠ some u := by
    by_cases hw : (s.tasks j).waitObj = some u
    · rw [if_pos hw] at hflag hwo
      exact Or.inl ⟨hflag, hwo⟩
    · rw [if_neg hw] at hflag hwo
      exact Or.inr ⟨hflag, hwo, hw⟩
  have hown : ∀ p, (s'.tasks j).pProcess = some p → (s.tasks j).pProcess = some p := by
    intro p hp
    rw [hproc] at hp
    split at hp
    · cases hp
    · exact hp
  exact {
    live hl := by
      obtain ⟨hs, hf⟩ := h.live hl.1
      refine ⟨hsel.trans_ne hs, ?_⟩
      rcases hcases with ⟨hready, _⟩ | ⟨hkeep, _⟩
      · rw [hready]
        exact fun h => by cases h
      · rwa [hkeep]
    waitObj v hv := by
      rcases hcases with ⟨_, hnone⟩ | ⟨hkeep, hkeepw, hne⟩
      · rw [hnone] at hv
        cases hv
      · rw [hkeepw] at hv
        obtain ⟨hl, hs, hf⟩ := h.waitObj v hv
        exact ⟨⟨hl, fun e => hne (e ▸ hv)⟩, hsel.trans_ne hs, hkeep.trans hf⟩
    waiting hs hf := by
      rcases hcases with ⟨hready, _⟩ | ⟨hkeep, hkeepw, _⟩
      · rw [hready] at hf
        cases hf
      · rw [hkeepw]
        exact h.waiting (hsel ▸ hs) (hkeep ▸ hf)
    single hs hf := by
      rw [hd.now]
      rcases hcases with ⟨hready, _⟩ | ⟨hkeep, _⟩
      · rw [hready] at hf
        cases hf
      · exact h.single (hsel ▸ hs) (hkeep ▸ hf)
    proc hl := by
      rw [hproc, if_neg fun e => hl.2 e.1]
      exact h.proc hl.1
    parent p hs hp := by
      rw [hpar]
      exact h.parent p (hsel ▸ hs) (hown p hp)
    exit hs hf hp := by
      rcases hcases with ⟨hready, _⟩ | ⟨hkeep, _⟩
      · rw [hready] at hf
        cases hf
      · exact h.exit (hsel ▸ hs) (hkeep ▸ hf) (hown _ hp)
  }

theorem SchedInv.depart {s : TaskStruct} {L : TaskPtr → Prop} (hi : SchedInv s L) {u : TaskPtr} (hu : L u)
    (hk : u ≠ kernelTask) (hidle : u ≠ idleTask) : ∃ r s', Clubcos.depart s u = some (r, s') ∧
      Departed s u r s' ∧ SchedInv s' (fun t => L t ∧ t ≠ u) := by
  obtain ⟨r, s', e, hd, hplaces⟩ := depart_spec hi hu
  have hslot := hi.toSlotInv
  have hsel := fun j => (hd.fields j).1
  have hflag := fun j => (hd.fields j).2.1
  have hwo := fun j => (hd.fields j).2.2.1
  have hproc := fun j => (hd.fields j).2.2.2.1
  have hid := fun j => (hd.fields j).2.2.2.2
  obtain ⟨p, hp, hcase⟩ := hd.process
  have hmain : ∀ q m, (s'.processes q).pMainThread = some m →
      (s.processes q).pMainThread = some m ∧ m ≠ u := by
    intro q m hq
    rcases hcase with ⟨_, hne, e, _⟩ | ⟨_, hm, e, _⟩
    · rw [e] at hq
      refine ⟨hq, ?_⟩
      rintro rfl
      have := (hslot.main q m hq).2.symm.trans hp
      exact hne (Option.some.inj this ▸ hq)
    · by_cases eq : q = p
      · rw [e, eq, Function.update_self] at hq
        cases hq
      · rw [e, Function.update_of_ne eq] at hq
        refine ⟨hq, ?_⟩
        rintro rfl
        exact eq (Option.some.inj ((hslot.main q m hq).2.symm.trans hp))
  have hpar : ∀ q, (s'.processes q).pParentProcess = (s.processes q).pParentProcess ∧
      (s'.processes q).pageDirectory = (s.processes q).pageDirectory ∧
      (s'.processes q).id = (s.processes q).id := by
    intro q
    rcases hcase with ⟨_, _, e, _⟩ | ⟨_, _, e, _⟩
    · rw [e]
      exact ⟨rfl, rfl, rfl⟩
    · rw [e]
      by_cases eq : q = p
      · rw [eq, Function.update_self]
        exact ⟨rfl, rfl, rfl⟩
      · rw [Function.update_of_ne eq]
        exact ⟨rfl, rfl, rfl⟩
  have hmain0 : (s'.processes kernelProcess).pMainThread = some kernelTask := by
    rcases hcase with ⟨_, _, e, _⟩ | ⟨_, hm, e, _⟩
    · rw [e]
      exact hslot.main0
    · have hne : kernelProcess ≠ p := by
        rintro rfl
        exact hk (Option.some.inj (hm.symm.trans hslot.main0))
      rw [e, Function.update_of_ne hne]
      exact hslot.main0
  have hfits := hd.fits hslot fun q => (hpar q).1
  have hkeep : ∀ j, j ≠ u → (s'.tasks j).pProcess = (s.tasks j).pProcess := fun j h => by
    rw [hproc, if_neg fun e => h e.1]
  have hidle' : (s'.tasks idleTask).flag = .ready ∨ (s'.tasks idleTask).flag = .running := by
    have hno : (s.tasks idleTask).waitObj ≠ some u := fun h => by
      have hwait := (hslot.waitObj idleTask u h).2.2
      rcases hslot.idle.2 with e | e <;> rw [e] at hwait <;> cases hwait
    rw [hflag, if_neg hno]
    exact hslot.idle.2
  have hslot' : SlotInv s' fun t => L t ∧ t ≠ u := by
    refine .ofFits hfits ⟨hslot.kernel, hk.symm⟩ ⟨⟨hslot.idle.1, hidle.symm⟩, hidle'⟩ (fun q m h => ?_) hmain0 ?_ ?_ ?_
    · obtain ⟨hm, hne⟩ := hmain q m h
      exact ⟨⟨(hslot.main q m hm).1, hne⟩, (hkeep m hne).trans (hslot.main q m hm).2⟩
    · rw [(hpar kernelProcess).2.1]
      exact hslot.dir0
    · rw [hid, hid, (hpar kernelProcess).2.2]
      exact hslot.ids
    · rw [hkeep idleTask hidle.symm]
      exact hslot.idle0
  refine ⟨r, s', e, hd, hslot', hplaces, ?_⟩
  rw [hd.waits]
  refine (hi.waits.mono fun l hl => hl.1).congr fun l hl j => ?_
  rw [TaskStruct.waitObj, TaskStruct.waitObj, hwo]
  by_cases h : (s.tasks j).waitObj = some u
  · rw [if_pos h, h]
    exact ⟨fun e => absurd (Option.some.inj e).symm hl.2, fun e => by cases e⟩
  · rw [if_neg h]

/-! ## the current task ends -/

/-- the current task in `WaitForExitList`, before the next one is chosen -/
def exiting (s : TaskStruct) (u : TaskPtr) : TaskStruct :=
  { s with
    tasks := Function.update s.tasks u { s.tasks u with flag := .waitForExit }
    nodes := ckLinkedListPushBack_lockfree s.nodes .waitForExit u }

theorem exiting_self {s : TaskStruct} {u : TaskPtr} :
    (exiting s u).tasks u = { s.tasks u with flag := .waitForExit } := Function.update_self _ _ _

theorem exiting_ne {s : TaskStruct} {u j : TaskPtr} (e : j ≠ u) : (exiting s u).tasks j = s.tasks j :=
  Function.update_of_ne e _ _

/-- the slot `t` is READY and gets the processor from `u` -/
def Exited (s : TaskStruct) (u : TaskPtr) (hw : Bool) (s' : TaskStruct) : Prop :=
  ∃ t p, s.place t = some (.ready p) ∧ Switched (exiting s u) t hw s'

/-- the slots after the current task has ended -/
theorem Exited.tasks {s s' : TaskStruct} {u : TaskPtr} {hw : Bool} (h : Exited s u hw s')
    (hu : (s.tasks u).flag ≠ .ready) : ∃ (flag : TaskPtr → TaskFlag) (cpu : TaskPtr → Nat),
      s'.tasks = (fun j => { s.tasks j with flag := flag j, usedCpuTime := cpu j }) ∧
      ∀ j, flag j = .waitForExit ↔ j = u ∨ (s.tasks j).flag = .waitForExit := by
  obtain ⟨t, p, ht, hs⟩ := h
  obtain ⟨cpu, htasks⟩ := hs.tasks
  have hready := (ready_of_place ht).2
  have hne : u ≠ t := fun e => hu (e ▸ hready)
  refine ⟨switchFlag (exiting s u) t, cpu, ?_, fun j => ?_⟩
  · rw [htasks]
    funext j
    by_cases e : j = u
    · rw [e, exiting_self]
    · rw [exiting_ne e]
  · have hexit : ((exiting s u).tasks t).flag ≠ .waitForExit := by
      rw [exiting_ne hne.symm, hready]
      exact fun h => by cases h
    rw [switchFlag_exit hexit]
    by_cases e : j = u
    · rw [e, exiting_self]
      exact iff_of_true rfl (Or.inl rfl)
    · rw [exiting_ne e]
      exact ⟨Or.inr, fun h => h.resolve_left e⟩

theorem Exited.live {s s' : TaskStruct} {u : TaskPtr} {hw : Bool} (h : Exited s u hw s')
    (hu : (s.tasks u).flag ≠ .ready) (j : TaskPtr) : (s'.tasks j).Live ↔ (s.tasks j).Live ∧ j ≠ u := by
  obtain ⟨flag, cpu, htasks, hflag⟩ := h.tasks hu
  unfold Task.Live
  rw [htasks]
  show _ ∧ ¬ flag j = .waitForExit ↔ _
  rw [hflag, not_or, and_assoc, and_comm (a := ¬ j = u)]

theorem exitSelf_frame {s s' : TaskStruct} {u : TaskPtr} {hw : Bool} (h : exitSelf s u hw = some s') :
    ∃ g count t, s' = switchTo { exiting s u with nodes := g, executeCount := count } t hw := by
  unfold exitSelf at h
  split at h
  · obtain ⟨⟨b, s₁⟩, h₁, h⟩ := Option.bind_eq_some_iff.mp h
    cases b <;> cases h
    obtain ⟨g, count, ⟨h, _⟩ | ⟨_, t, e⟩⟩ := schedule_frame h₁
    · cases h
    · exact ⟨g, count, t, e⟩
  · cases h

theorem exitSelf_spec {s : TaskStruct} {L : TaskPtr → Prop} (hi : SchedInv s L) {u : TaskPtr} (hu : u = s.pNow)
    (hL : ¬ L u) (hrun : (s.tasks u).selector ≠ 0 ∧ (s.tasks u).flag = .running)
    (hproc : (s.tasks u).pProcess ≠ some kernelProcess) (hw : Bool) :
    ∃ s', exitSelf s u hw = some s' ∧ Exited s u hw s' ∧ SchedInv s' L ∧ Running s' := by
  have hslot := hi.toSlotInv
  have hwo : (s.tasks u).waitObj = none := hslot.waits_not fun h => by
    rw [hrun.2] at h
    cases h
  have hnow : (exiting s u).pNow = s.pNow := rfl
  have hslot' : SlotInv (exiting s u) L := by
    refine hslot.keep (fun _ e => exiting_ne e) rfl (fun _ => rfl) (fun h => absurd h hL) ?_
    refine ⟨fun h => absurd h hL, fun v hv => ?_, fun _ h => ?_, fun _ h => ?_, fun h => absurd h hL, fun p _ hp => ?_,
      fun _ _ => ?_⟩
    all_goals rw [exiting_self] at *
    · rw [hwo] at hv
      cases hv
    · cases h
    · cases h
    · exact (hslot.fits u).parent p hrun.1 hp
    · exact hproc
  have hput : (exiting s u).place u = some .waitForExit := by
    rw [TaskStruct.place, exiting_self]
    exact place_exit hrun.1 rfl
  have hplaces : Located (exiting s u).nodes (fun _ => True) (exiting s u).place := by
    have hno : ∀ l, True → s.place u ≠ some l := fun l _ h => by
      rw [TaskStruct.place, place_running hrun.2] at h
      cases h
    refine (hi.places.push (l := .waitForExit) trivial hno).congr fun l _ j => ?_
    by_cases e : j = u
    · rw [e, Function.update_self, hput]
    · rw [Function.update_of_ne e, TaskStruct.place, TaskStruct.place, exiting_ne e]
  have hwaits : Located (exiting s u).waits L (exiting s u).waitObj := by
    refine hi.waits.congr fun l _ j => ?_
    by_cases e : j = u
    · rw [e, TaskStruct.waitObj, TaskStruct.waitObj, exiting_self]
    · rw [TaskStruct.waitObj, TaskStruct.waitObj, exiting_ne e]
  have hused : ((exiting s u).tasks (exiting s u).pNow).selector ≠ 0 := by
    rw [hnow, ← hu, exiting_self]
    exact hrun.1
  have hready : ((exiting s u).tasks (exiting s u).pNow).flag ≠ .ready := by
    rw [hnow, ← hu, exiting_self]
    exact fun h => by cases h
  -- the idle task is READY: it is not the one that ran
  have hidle : (exiting s u).place idleTask = some (.ready (s.tasks idleTask).priority) := by
    have hne : idleTask ≠ u := fun e => hL (e ▸ hslot.idle.1)
    have hsel := (hslot.live _ hslot.idle.1).1
    have hf : (s.tasks idleTask).flag = .ready :=
      hslot.idle.2.resolve_right fun h => hne ((hslot.single _ hsel h).trans hu.symm)
    rw [TaskStruct.place, exiting_ne hne]
    exact place_ready hsel hf
  have hexit : exitSelf s u hw = (ckTaskSchedule_internal (exiting s u) hw).bind fun x =>
      if x.1 then some x.2 else none := if_pos hwo
  rcases SchedInv.schedule ⟨hslot', hplaces, hwaits⟩ hused hready hw with ⟨hnone, _⟩ | ⟨t, p, s', ht, e, hs, hi', hr⟩
  · exact absurd hidle (hnone _ _)
  · refine ⟨s', ?_, ⟨t, p, ?_, hs⟩, hi', hr⟩
    · rw [hexit, e]
      rfl
    · have hne : t ≠ u := by
        rintro rfl
        rw [hput] at ht
        cases ht
      rw [TaskStruct.place, exiting_ne hne] at ht
      exact ht

/-! ## a slot is freed -/

/-- the children lists after the process `r` was cleaned up -/
def orphaned (s : TaskStruct) : Option ProcPtr → Heap ProcPtr ProcPtr
  | none => s.children
  | some p =>
    match (s.processes p).pParentProcess with
    | none => s.children
    | some q => ckLinkedListErase s.children q p

/-- the state after the slot `u` was freed, over the memory `g` -/
def reaped (s : TaskStruct) (u : TaskPtr) (r : Option ProcPtr) (g : Pages) : TaskStruct :=
  { s with
    tasks := Function.update s.tasks u { s.tasks u with selector := 0 }
    children := orphaned s r
    pages := g }

theorem csCleanupProcess_eq {s : TaskStruct} {p : ProcPtr} (h : (s.processes p).pParentProcess ≠ none) :
    ∃ g, csCleanupProcess s p = some { s with children := orphaned s (some p), pages := g } := by
  obtain ⟨q, hq⟩ := Option.ne_none_iff_exists'.mp h
  have ho : orphaned s (some p) = ckLinkedListErase s.children q p := by
    unfold orphaned
    simp only [hq]
  refine ⟨(cleanupPages s.pages (s.processes p)).clean p, ?_⟩
  unfold csCleanupProcess
  rw [hq, ho]
  rfl

theorem reap_eq {s : TaskStruct} {r : Option ProcPtr}
    (hr : ∀ p, r = some p → (s.processes p).pParentProcess ≠ none) (u : TaskPtr) :
    ∃ g, reap s u r = some (reaped s u r g) := by
  have hclean : ∃ g, cleanupWith s r = some { s with children := orphaned s r, pages := g } := by
    cases r with
    | none => exact ⟨s.pages, rfl⟩
    | some p => exact csCleanupProcess_eq (hr p rfl)
  obtain ⟨g, hg⟩ := hclean
  unfold reap
  rw [hg]
  by_cases hs : (s.tasks u).stack ≠ 0
  · refine ⟨g.free (s.tasks u).stack (s.tasks u).stacksize, ?_⟩
    show some ((if (s.tasks u).stack ≠ 0 then _ else _ : TaskStruct).setTask u _) = _
    rw [if_pos hs]
    rfl
  · refine ⟨g, ?_⟩
    show some ((if (s.tasks u).stack ≠ 0 then _ else _ : TaskStruct).setTask u _) = _
    rw [if_neg hs]
    rfl

theorem reap_frame {s s' : TaskStruct} {u : TaskPtr} {r : Option ProcPtr} (h : reap s u r = some s') :
    ∃ children g, s' = { s with
      tasks := Function.update s.tasks u { s.tasks u with selector := 0 }, children := children, pages := g } := by
  unfold reap at h
  obtain ⟨s₁, h₁, h⟩ := Option.bind_eq_some_iff.mp h
  have hclean : ∃ children g, s₁ = { s with children := children, pages := g } := by
    cases r with
    | none =>
      cases h₁
      exact ⟨_, _, rfl⟩
    | some p =>
      obtain ⟨q, _, h₁⟩ := Option.bind_eq_some_iff.mp h₁
      cases h₁
      exact ⟨_, _, rfl⟩
  obtain ⟨children, g, rfl⟩ := hclean
  cases h
  split <;> exact ⟨_, _, rfl⟩

/-- A task that is in no list and that nobody counts as live can be freed; `s'` is the state after it. -/
theorem SlotInv.freed {s s' : TaskStruct} {L : TaskPtr → Prop} (hslot : SlotInv s L) {u : TaskPtr} (hL : ¬ L u)
    (hself : (s'.tasks u).selector = 0 ∧ (s'.tasks u).waitObj = none)
    (hother : ∀ j, j ≠ u → s'.tasks j = s.tasks j) (hprocs : ∀ q, s'.processes q = s.processes q)
    (hnow : s'.pNow = s.pNow) (hplaces : Located s'.nodes (fun _ => True) (Function.update s.place u none))
    (hwaits : Located s'.waits L (Function.update s.waitObj u none)) : SchedInv s' L := by
  refine ⟨hslot.keep hother hnow hprocs (fun h => absurd h hL) (.free hL hself.1 hself.2), ?_, ?_⟩
  · refine hplaces.congr fun l _ j => ?_
    by_cases e : j = u
    · rw [e, Function.update_self, TaskStruct.place, place_free hself.1]
    · rw [Function.update_of_ne e, TaskStruct.place, TaskStruct.place, hother j e]
  · refine hwaits.congr fun l _ j => ?_
    by_cases e : j = u
    · rw [e, Function.update_self, TaskStruct.waitObj, hself.2]
    · rw [Function.update_of_ne e, TaskStruct.waitObj, TaskStruct.waitObj, hother j e]

/-! ## another task ends -/

/-- the state after the slot of another task `u` was freed; `h` and `h'` hold the lists -/
def killed (s : TaskStruct) (u : TaskPtr) (r : Option ProcPtr) (h : Heap SchedList TaskPtr)
    (h' : Heap TaskPtr TaskPtr) (g : Pages) : TaskStruct :=
  { s with
    tasks := Function.update s.tasks u { s.tasks u with waitObj := none, selector := 0 }
    nodes := h
    waits := h'
    children := orphaned s r
    pages := g }

section
variable {s : TaskStruct} {u : TaskPtr} {r : Option ProcPtr} {h : Heap SchedList TaskPtr} {h' : Heap TaskPtr TaskPtr}
  {g : Pages}

theorem killed_self : (killed s u r h h' g).tasks u = { s.tasks u with waitObj := none, selector := 0 } :=
  Function.update_self _ _ _

theorem killed_ne {j : TaskPtr} (e : j ≠ u) : (killed s u r h h' g).tasks j = s.tasks j := Function.update_of_ne e _ _

end

theorem killed_live (s : TaskStruct) (u : TaskPtr) (r : Option ProcPtr) (h : Heap SchedList TaskPtr)
    (h' : Heap TaskPtr TaskPtr) (g : Pages) (j : TaskPtr) :
    ((killed s u r h h' g).tasks j).Live ↔ (s.tasks j).Live ∧ j ≠ u := by
  by_cases e : j = u
  · rw [e, killed_self]
    exact iff_of_false (fun h => h.1 rfl) (fun h => h.2 rfl)
  · rw [killed_ne e]
    exact (and_iff_left e).symm

/-- what is left to do when `u` waits for nobody (any more) -/
theorem reap_killed {s : TaskStruct} {u : TaskPtr} {r : Option ProcPtr}
    (hr : ∀ p, r = some p → (s.processes p).pParentProcess ≠ none) (h : Heap SchedList TaskPtr)
    (h' : Heap TaskPtr TaskPtr) : ∃ g, reap { s with
      tasks := Function.update s.tasks u { s.tasks u with waitObj := none }, nodes := h, waits := h' } u r
        = some (killed s u r h h' g) := by
  obtain ⟨g, hg⟩ := reap_eq (s := { s with
    tasks := Function.update s.tasks u { s.tasks u with waitObj := none }, nodes := h, waits := h' }) hr u
  refine ⟨g, hg.trans (congrArg (fun f => some ({ s with
    tasks := f, nodes := h, waits := h', children := orphaned s r, pages := g } : TaskStruct)) ?_)⟩
  exact update_twice s.tasks u (fun t => { t with waitObj := none }) (fun t => { t with selector := 0 })

/-- what the termination of another task comes to, by its flag and its `WaitObj` -/
theorem killOther_cases (s : TaskStruct) (u : TaskPtr) {r : Option ProcPtr}
    (hr : ∀ p, r = some p → (s.processes p).pParentProcess ≠ none) :
    (∃ v g, (s.tasks u).waitObj = some v ∧ (s.tasks u).flag = .wait ∧ killOther s u r =
      some (killed s u r (ckLinkedListErase s.nodes .wait u) (ckLinkedListErase s.waits v u) g)) ∨
    (∃ g, (s.tasks u).waitObj = none ∧ (s.tasks u).flag = .ready ∧ killOther s u r =
      some (killed s u r (ckLinkedListErase s.nodes (.ready (s.tasks u).priority) u) s.waits g)) ∨
    ((s.tasks u).waitObj = none → (s.tasks u).flag ≠ .ready) ∧ ((s.tasks u).waitObj ≠ none → (s.tasks u).flag ≠ .wait) ∧
      killOther s u r = none := by
  unfold killOther
  cases hwo : (s.tasks u).waitObj with
  | some v =>
    have hself : (({ s with waits := ckLinkedListErase s.waits v u } : TaskStruct).setTask u
        fun t => { t with waitObj := none }).tasks u = { s.tasks u with waitObj := none } := setTask_self _ u _
    by_cases hf : (s.tasks u).flag = .wait
    · obtain ⟨g, hg⟩ := reap_killed hr (ckLinkedListErase s.nodes .wait u) (ckLinkedListErase s.waits v u)
      refine Or.inl ⟨v, g, rfl, hf, (if_pos ?_).trans hg⟩
      rw [hself]
      exact hf
    · refine Or.inr (Or.inr ⟨fun h => absurd h (Option.some_ne_none v), fun _ => hf, if_neg ?_⟩)
      rw [hself]
      exact hf
  | none =>
    by_cases hf : (s.tasks u).flag = .ready
    · have hsame : Function.update s.tasks u { s.tasks u with waitObj := none } = s.tasks := by
        have : { s.tasks u with waitObj := none } = s.tasks u := by rw [← hwo]
        rw [this, Function.update_eq_self]
      obtain ⟨g, hg⟩ := reap_killed hr
        (ckLinkedListErase s.nodes (.ready (s.tasks u).priority) u) s.waits
      rw [hsame] at hg
      exact Or.inr (Or.inl ⟨g, rfl, hf, (if_pos hf).trans hg⟩)
    · exact Or.inr (Or.inr ⟨fun _ => hf, fun h => absurd rfl h, if_neg hf⟩)

/-- another task ends, and nobody begins to wait -/
theorem killOther_frame {s s' : TaskStruct} {u : TaskPtr} {r : Option ProcPtr} (h : killOther s u r = some s') :
    (∃ f g waits children pages, s' = { s with
      tasks := f, nodes := g, waits := waits, children := children, pages := pages }) ∧
    ∀ j, (s.tasks j).waitObj = none → (s'.tasks j).waitObj = none := by
  have hfree : ∀ (f : TaskPtr → Task), (∀ j, (s.tasks j).waitObj = none → (f j).waitObj = none) → ∀ j,
      (s.tasks j).waitObj = none → (Function.update f u { f u with selector := 0 } j).waitObj = none := by
    intro f hf j hj
    by_cases e : j = u
    · rw [e, Function.update_self]
      exact hf u (e ▸ hj)
    · rw [Function.update_of_ne e]
      exact hf j hj
  unfold killOther at h
  split at h
  · simp only [] at h
    split at h
    · obtain ⟨children, g, rfl⟩ := reap_frame h
      refine ⟨⟨_, _, _, children, g, rfl⟩, hfree _ fun j hj => ?_⟩
      by_cases e : j = u
      · rw [e, setTask_self]
      · rw [setTask_ne _ _ _ e]
        exact hj
    · cases h
  · split at h
    · obtain ⟨children, g, rfl⟩ := reap_frame h
      exact ⟨⟨_, _, s.waits, children, g, rfl⟩, hfree _ fun j hj => hj⟩
    · cases h

theorem killOther_spec {s : TaskStruct} {L : TaskPtr → Prop} (hi : SchedInv s L) {u : TaskPtr} (hL : ¬ L u)
    (hne : u ≠ s.pNow) (hused : (s.tasks u).selector ≠ 0) (hexit : (s.tasks u).flag ≠ .waitForExit)
    {r : Option ProcPtr} (hr : ∀ p, r = some p → (s.processes p).pParentProcess ≠ none) :
    ∃ h h' g, killOther s u r = some (killed s u r h h' g) ∧ SchedInv (killed s u r h h' g) L := by
  have hslot := hi.toSlotInv
  have hinv : ∀ l h' g, s.place u = some l → Located h' L (Function.update s.waitObj u none) →
      SchedInv (killed s u r (ckLinkedListErase s.nodes l u) h' g) L := by
    intro l h' g hl hw
    exact hslot.freed hL (by rw [killed_self]; exact ⟨rfl, rfl⟩) (fun j e => killed_ne e)
      (fun q => rfl) rfl (hi.places.erase trivial hl) hw
  rcases killOther_cases s u hr with ⟨v, g, hwo, hf, e⟩ | ⟨g, hwo, hf, e⟩ | ⟨hready, hwait, e⟩
  · exact ⟨_, _, g, e, hinv .wait _ g (place_wait hused hf) (hi.waits.erase (hslot.waitObj u v hwo).1 hwo)⟩
  · have hsame : Function.update s.waitObj u none = s.waitObj :=
      (congrArg (Function.update s.waitObj u) hwo.symm).trans (Function.update_eq_self u s.waitObj)
    refine ⟨_, _, g, e, hinv _ _ g (place_ready hused hf) ?_⟩
    rw [hsame]
    exact hi.waits
  -- the flag and `WaitObj` fit together
  · exfalso
    cases hf : (s.tasks u).flag with
    | running => exact hne (hslot.single u hused hf)
    | ready =>
      have hwo : (s.tasks u).waitObj = none := hslot.waits_not fun h => by
        rw [hf] at h
        cases h
      exact hready hwo hf
    | wait => exact hwait (hslot.waiting u hused hf) hf
    | waitForExit => exact hexit hf

/-! ## termination as a whole -/

theorem SchedInv.congr_live {s : TaskStruct} {L L' : TaskPtr → Prop} (hi : SchedInv s L)
    (h : ∀ t, L t ↔ L' t) : SchedInv s L' := by
  have e : L = L' := funext fun t => propext (h t)
  rwa [← e]

/-- **Termination** of a task other than the kernel and the idle task. -/
theorem terminate_spec {s : TaskStruct} (hi : TaskInv s) {u : TaskPtr} (hu : (s.tasks u).Live)
    (hk : u ≠ kernelTask) (hidle : u ≠ idleTask) (hw : Bool) : ∃ r s₁ s', Departed s u r s₁ ∧
      ckTaskTerminate_internal s u hw = some s' ∧ TaskInv s' ∧
      (u = s.pNow ∧ Exited s₁ u hw s' ∨ u ≠ s.pNow ∧ ∃ h h' g, s' = killed s₁ u r h h' g) := by
  obtain ⟨hsched, hrun⟩ := hi
  obtain ⟨r, s₁, hdep, hd, hi₁⟩ := hsched.depart hu hk hidle
  have hslot := hsched.toSlotInv
  have hnow := hd.now
  have hterm : ckTaskTerminate_internal s u hw
      = if u = s₁.pNow then exitSelf s₁ u hw else killOther s₁ u r := by
    unfold ckTaskTerminate_internal
    rw [hdep]
    rfl
  have hL : ¬ ((s.tasks u).Live ∧ u ≠ u) := fun h => h.2 rfl
  obtain ⟨p, hp, hcase⟩ := hd.process
  obtain ⟨hsel, hflag, hwo, hproc, _⟩ := hd.fields u
  refine ⟨r, s₁, ?_⟩
  by_cases e : u = s.pNow
  · have hrun₁ : (s₁.tasks u).selector ≠ 0 ∧ (s₁.tasks u).flag = .running :=
      ⟨hsel.trans_ne hu.1, hd.running hslot (e ▸ hrun.2)⟩
    have hproc₁ : (s₁.tasks u).pProcess ≠ some kernelProcess := by
      rw [hproc]
      rcases hcase with ⟨hr, _⟩ | ⟨hr, hm, _⟩
      · rw [if_pos ⟨rfl, hr⟩]
        exact fun h => by cases h
      · have hrn : ¬ (u = u ∧ r = none) := fun h => by
          rw [hr] at h
          cases h.2
        rw [if_neg hrn, hp]
        rintro ⟨⟩
        exact hk (Option.some.inj (hm.symm.trans hslot.main0))
    obtain ⟨s', he, hex, hi', hr'⟩ := exitSelf_spec hi₁ (e.trans hnow.symm) hL hrun₁ hproc₁ hw
    refine ⟨s', hd, ?_, ⟨hi'.congr_live fun t => ?_, hr'⟩, Or.inl ⟨e, hex⟩⟩
    · rw [hterm, if_pos (e.trans hnow.symm)]
      exact he
    · rw [hex.live (hd.not_ready hslot (e ▸ hrun.2)) t, hd.live_iff hslot t]
  · have hused₁ : (s₁.tasks u).selector ≠ 0 := hsel.trans_ne hu.1
    have hexit₁ : (s₁.tasks u).flag ≠ .waitForExit := by
      rw [hflag]
      split
      · exact fun h => by cases h
      · exact hu.2
    have hpar₁ : ∀ q, r = some q → (s₁.processes q).pParentProcess ≠ none := by
      intro q hq
      rcases hcase with ⟨hr, _⟩ | ⟨hr, hm, he, _⟩
      · rw [hr] at hq
        cases hq
      · obtain rfl : p = q := Option.some.inj (hr.symm.trans hq)
        rw [he, Function.update_self]
        refine (hslot.parent u p hu.1 hp).resolve_left ?_
        rintro rfl
        exact hk (Option.some.inj (hm.symm.trans hslot.main0))
    obtain ⟨h, h', g, he, hi'⟩ := killOther_spec hi₁ hL (hnow.trans_ne (Ne.symm e)).symm hused₁ hexit₁ hpar₁
    refine ⟨_, hd, ?_, ⟨hi'.congr_live fun t => ?_, ?_⟩, Or.inr ⟨e, h, h', g, rfl⟩⟩
    · rw [hterm, if_neg (hnow.trans_ne (Ne.symm e)).symm]
      exact he
    · rw [killed_live, hd.live_iff hslot t]
    · have hother : (killed s₁ u r h h' g).tasks s.pNow = s₁.tasks s.pNow := killed_ne (Ne.symm e)
      have hpn : (killed s₁ u r h h' g).pNow = s.pNow := hnow
      unfold Running
      rw [hpn, hother]
      exact ⟨(hd.fields s.pNow).1.trans_ne hrun.1, hd.running hslot hrun.2⟩

/-! ## the idle task frees a slot -/

/-- the state after the idle task freed the slot `u` -/
def buried (s : TaskStruct) (u : TaskPtr) (g : Pages) : TaskStruct :=
  reaped { s with nodes := ckLinkedListErase s.nodes .waitForExit u } u (s.tasks u).pProcess g

theorem buried_self {s : TaskStruct} {u : TaskPtr} {g : Pages} :
    (buried s u g).tasks u = { s.tasks u with selector := 0 } := Function.update_self _ _ _

theorem buried_ne {s : TaskStruct} {u j : TaskPtr} {g : Pages} (e : j ≠ u) : (buried s u g).tasks j = s.tasks j :=
  Function.update_of_ne e _ _

theorem idleReap_spec {s : TaskStruct} (hi : TaskInv s) :
    (∀ u, s.place u ≠ some .waitForExit) ∧ idleReap s = some s ∨
      ∃ u g, s.place u = some .waitForExit ∧ idleReap s = some (buried s u g) ∧ TaskInv (buried s u g) := by
  obtain ⟨⟨hslot, hplaces, hwaits⟩, hrun⟩ := hi
  unfold idleReap popTask
  rcases hplaces.pop (l := .waitForExit) trivial with ⟨hnone, e⟩ | ⟨u, hu, e⟩
  · rw [e]
    exact Or.inl ⟨hnone, rfl⟩
  · right
    obtain ⟨hused, hexit⟩ := exit_of_place hu
    have hr : ∀ p, (s.tasks u).pProcess = some p → (s.processes p).pParentProcess ≠ none := by
      intro p hp
      refine (hslot.parent u p hused hp).resolve_left ?_
      rintro rfl
      exact hslot.exit u hused hexit hp
    obtain ⟨g, hg⟩ := reap_eq (s := { s with nodes := ckLinkedListErase s.nodes .waitForExit u }) hr u
    have hL : ¬ (s.tasks u).Live := fun h => h.2 hexit
    have hwo : s.waitObj u = none := hslot.waits_not fun h => by
      rw [hexit] at h
      cases h
    have hwo' : Function.update s.waitObj u none = s.waitObj :=
      (congrArg (Function.update s.waitObj u) hwo.symm).trans (Function.update_eq_self u s.waitObj)
    have hi' : SchedInv (buried s u g) (fun t => (s.tasks t).Live) :=
      hslot.freed hL (by rw [buried_self]; exact ⟨rfl, hwo⟩) (fun _ e => buried_ne e) (fun q => rfl) rfl
        (hplaces.erase trivial hu) (by rw [hwo']; exact hwaits)
    refine ⟨u, g, hu, ?_, hi'.congr_live fun t => ?_, ?_⟩
    · rw [e]
      exact hg
    · by_cases e : t = u
      · rw [e, buried_self]
        exact iff_of_false hL (fun h => h.1 rfl)
      · rw [buried_ne e]
    · have hne : s.pNow ≠ u := by
        rintro rfl
        have := hrun.2
        rw [hexit] at this
        cases this
      have hpn : (buried s u g).pNow = s.pNow := rfl
      unfold Running
      rw [hpn, buried_ne hne]
      exact hrun

end Clubcos
