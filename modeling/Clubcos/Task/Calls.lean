import Clubcos.Task.Load
import Clubcos.Task.Run

/-!
# What the calls of other tasks do to the account of the idle task

* `Quiet`            the time of the idle task, the current task and the quantum stay;
* `schedule_elsewhere`   another task gives the processor away;
* `exec_elsewhere`   **every call of another task** is `Elsewhere`, and so it is an event of `LoadRun`.
-/

set_option linter.unusedVariables false

namespace Clubcos.Load
open Word

structure Quiet (s s' : TaskStruct) : Prop where
  used : idleUsed s' = idleUsed s
  now : s'.pNow = s.pNow
  remain : s'.remainQuantum = s.remainQuantum

section
variable {s s₁ s' : TaskStruct}

theorem Quiet.refl (s : TaskStruct) : Quiet s s := ⟨rfl, rfl, rfl⟩

theorem Quiet.trans (h : Quiet s s₁) (h' : Quiet s₁ s') : Quiet s s' :=
  ⟨h'.used.trans h.used, h'.now.trans h.now, h'.remain.trans h.remain⟩

theorem Quiet.elsewhere (h : Quiet s s') : Elsewhere s s' := ⟨h.used, Or.inl ⟨h.now, h.remain⟩⟩

theorem Quiet.before (h : Quiet s s₁) (h' : Elsewhere s₁ s') : Elsewhere s s' := by
  obtain ⟨hused, hquantum⟩ := h'
  rw [h.now, h.remain] at hquantum
  exact ⟨hused.trans h.used, hquantum⟩

/-- a write to one slot that leaves the time used -/
theorem Quiet.setTask (s : TaskStruct) (t : TaskPtr) {f : Task → Task}
    (hf : (f (s.tasks t)).usedCpuTime = (s.tasks t).usedCpuTime) : Quiet s (s.setTask t f) :=
  ⟨setTask_keep s t f Task.usedCpuTime hf idleTask, rfl, rfl⟩

end

section
variable {s s' : TaskStruct} {hw : Bool}

/-- the idle task is not charged while another task runs -/
theorem schedule_elsewhere {b : Bool} (hn : s.pNow ≠ idleTask) (h : ckTaskSchedule_internal s hw = some (b, s')) :
    Elsewhere s s' := by
  obtain ⟨g, count, ⟨rfl, rfl⟩ | ⟨rfl, t, rfl⟩⟩ := schedule_frame h
  · exact ⟨rfl, Or.inl ⟨rfl, rfl⟩⟩
  · obtain ⟨_, ⟨hused, _⟩ | ⟨hidle, _⟩⟩ := switchTo_moves { s with nodes := g, executeCount := count } t hw
    · exact ⟨hused, Or.inr ⟨hn, rfl⟩⟩
    · exact absurd hidle hn

/-! ## tasks that wait -/

theorem resume_quiet (s : TaskStruct) (t : TaskPtr) : Quiet s (ckTaskResume_byptr s t).2 := by
  unfold ckTaskResume_byptr
  split
  · exact ⟨(Quiet.setTask s t (f := fun t => { t with flag := .ready }) rfl).used, rfl, rfl⟩
  · exact .refl s

theorem wake_quiet (s : TaskStruct) (t : TaskPtr) : Quiet s (wake s t) :=
  (Quiet.setTask s t rfl).trans (resume_quiet (s.setTask t fun t => { t with waitObj := none }) t)

theorem wakeLoop_quiet {u : TaskPtr} {fuel : Nat} {a : Addr TaskPtr TaskPtr} (h : wakeLoop u fuel a s = some s') :
    Quiet s s' := by
  induction fuel generalizing a s with
  | zero => cases h
  | succ fuel ih =>
    unfold wakeLoop at h
    split at h
    · cases h
      exact .refl _
    · split at h
      · exact (wake_quiet _ _).trans (ih h)
      · cases h

theorem suspend_elsewhere {b : Bool} {t : TaskPtr} (hn : s.pNow ≠ idleTask)
    (h : ckTaskSuspend_byptr s t hw = some (b, s')) : Elsewhere s s' := by
  let put (g : Heap SchedList TaskPtr) : TaskStruct := ({ s with nodes := g }).setTask t fun t => { t with flag := .wait }
  have hput : ∀ g, Quiet s (put g) := fun g =>
    ⟨(Quiet.setTask s t (f := fun t => { t with flag := .wait }) rfl).used, rfl, rfl⟩
  have hmiddle : ∀ g, (if (s.tasks t).flag = .running then
      (ckTaskSchedule_internal (put g) hw).bind fun r => some (true, r.2) else some (true, put g)) = some (b, s') →
      Elsewhere s s' := by
    intro g h
    split at h
    · obtain ⟨⟨b₁, s₁⟩, h₁, h⟩ := Option.bind_eq_some_iff.mp h
      cases h
      exact (hput g).before (schedule_elsewhere (s := put g) hn h₁)
    · cases h
      exact (hput g).elsewhere
  unfold ckTaskSuspend_byptr at h
  by_cases hwait : (s.tasks t).flag ≠ .wait
  · rw [if_pos hwait] at h
    by_cases hready : (s.tasks t).flag = .ready
    · rw [if_pos hready] at h
      exact hmiddle _ h
    · rw [if_neg hready] at h
      exact hmiddle _ h
  · rw [if_neg hwait] at h
    cases h
    exact (Quiet.refl s).elsewhere

theorem joinOn_elsewhere {u : TaskPtr} (hn : s.pNow ≠ idleTask) (h : joinOn s u hw = some s') : Elsewhere s s' := by
  obtain ⟨⟨b, s₁⟩, hsuspend, rfl⟩ := Option.map_eq_some_iff.mp h
  have hquiet : Quiet s { s.setTask s.pNow fun t => { t with waitObj := some u } with
      waits := ckLinkedListPushBack_lockfree s.waits u s.pNow } :=
    ⟨(Quiet.setTask s s.pNow (f := fun t => { t with waitObj := some u }) rfl).used, rfl, rfl⟩
  exact hquiet.before (suspend_elsewhere hn hsuspend)

/-! ## tasks that end -/

theorem leaveProcess_quiet (s : TaskStruct) (u : TaskPtr) (p : ProcPtr) : Quiet s (leaveProcess s u p).2 := by
  unfold leaveProcess
  split
  · exact ⟨(Quiet.setTask s u (f := fun t => { t with pProcess := none }) rfl).used, rfl, rfl⟩
  · exact ⟨rfl, rfl, rfl⟩

theorem depart_quiet {u : TaskPtr} {r : Option ProcPtr} (h : depart s u = some (r, s')) : Quiet s s' := by
  obtain ⟨s₁, h₁, h⟩ := Option.bind_eq_some_iff.mp h
  obtain ⟨p, _, h⟩ := Option.bind_eq_some_iff.mp h
  have hleave := leaveProcess_quiet { s₁ with
    pLastTaskUsedFPU := if s₁.pLastTaskUsedFPU = some u then none else s₁.pLastTaskUsedFPU } u p
  rw [Option.some.inj h] at hleave
  exact (wakeLoop_quiet h₁).trans ⟨hleave.used, hleave.now, hleave.remain⟩

theorem reap_quiet {u : TaskPtr} {r : Option ProcPtr} (h : reap s u r = some s') : Quiet s s' := by
  obtain ⟨children, g, rfl⟩ := reap_frame h
  exact ⟨(Quiet.setTask s u (f := fun t => { t with selector := 0 }) rfl).used, rfl, rfl⟩

theorem killOther_quiet {u : TaskPtr} {r : Option ProcPtr} (h : killOther s u r = some s') : Quiet s s' := by
  unfold killOther at h
  split at h
  · have hquiet := Quiet.setTask s u (f := fun t => { t with waitObj := none }) rfl
    obtain ⟨_, h⟩ := Option.ite_none_right_eq_some.mp h
    have hreap := reap_quiet h
    exact hquiet.trans ⟨hreap.used, hreap.now, hreap.remain⟩
  · obtain ⟨_, h⟩ := Option.ite_none_right_eq_some.mp h
    have hreap := reap_quiet h
    exact ⟨hreap.used, hreap.now, hreap.remain⟩

theorem exitSelf_elsewhere {u : TaskPtr} (hn : s.pNow ≠ idleTask) (h : exitSelf s u hw = some s') : Elsewhere s s' := by
  obtain ⟨_, h⟩ := Option.ite_none_right_eq_some.mp h
  obtain ⟨⟨b, s₁⟩, h₁, h⟩ := Option.bind_eq_some_iff.mp h
  have hquiet : Quiet s (exiting s u) :=
    ⟨(Quiet.setTask s u (f := fun t => { t with flag := .waitForExit }) rfl).used, rfl, rfl⟩
  obtain ⟨_, h⟩ := Option.ite_none_right_eq_some.mp h
  cases h
  exact hquiet.before (schedule_elsewhere (s := exiting s u) hn h₁)

theorem terminate_elsewhere {u : TaskPtr} (hn : s.pNow ≠ idleTask) (h : ckTaskTerminate_internal s u hw = some s') :
    Elsewhere s s' := by
  obtain ⟨⟨r, s₁⟩, h₁, h⟩ := Option.bind_eq_some_iff.mp h
  have hquiet := depart_quiet h₁
  have hn₁ : s₁.pNow ≠ idleTask := hquiet.now ▸ hn
  have h : (if u = s₁.pNow then exitSelf s₁ u hw else killOther s₁ u r) = some s' := h
  split at h
  · exact hquiet.before (exitSelf_elsewhere hn₁ h)
  · exact hquiet.before (killOther_quiet h).elsewhere

/-! ## tasks that begin -/

theorem create_quiet (s : TaskStruct) (stack stacksize : Nat) (p : ProcPtr) (priority : TaskPriority) :
    Quiet s ( ckTaskCreate_unsafe s stack stacksize p priority).2 := by
  cases hf : freeTask s with
  | none =>
    unfold ckTaskCreate_unsafe
    rw [hf]
    exact .refl s
  | some i =>
    have hi : idleTask ≠ i := by
      rintro rfl
      exact absurd (freeTask_some hf).1 (by decide)
    rw [ckTaskCreate_unsafe_eq hf]
    exact ⟨congrArg Task.usedCpuTime (created_ne hi), rfl, rfl⟩

theorem taskCreate_quiet (s : TaskStruct) (stack stacksize processId : Nat) (priority : TaskPriority) :
    Quiet s (ckTaskCreate s stack stacksize processId priority).2 := by
  unfold ckTaskCreate
  split
  · exact .refl s
  · exact create_quiet s stack stacksize _ priority

theorem processCreate_quiet (s : TaskStruct) (stack stacksize : Nat) (priority : TaskPriority)
    (pageDirectory pageDirSize cr3 : Nat) (procData : ProcessData) (parentProcessId : Nat) :
    Quiet s (ckProcessCreate s stack stacksize priority pageDirectory pageDirSize cr3 procData parentProcessId).2 := by
  unfold ckProcessCreate
  split
  · exact .refl s
  · rename_i parent _
    split
    · exact .refl s
    · rename_i ret _
      have hcreate := create_quiet (fillProcess s ret parent pageDirectory pageDirSize cr3 procData) stack stacksize ret
        priority
      exact ⟨hcreate.used, hcreate.now, hcreate.remain⟩

/-! ## all calls -/

/-- **Every call of another task** leaves the account of the idle task. -/
theorem exec_elsewhere {finit : FpuContext} {op : Op} (hn : s.pNow ≠ idleTask) (hop : op ≠ .timerInt)
    (h : exec finit hw s op = some s') : Elsewhere s s' := by
  cases op with
  | taskCreate stack stacksize processId priority =>
    cases h
    exact (taskCreate_quiet s stack stacksize processId priority).elsewhere
  | processCreate stack stacksize priority pageDirectory pageDirSize cr3 procData parentProcessId =>
    cases h
    exact (processCreate_quiet s stack stacksize priority pageDirectory pageDirSize cr3 procData
      parentProcessId).elsewhere
  | schedule =>
    obtain ⟨⟨b, s₁⟩, h₁, rfl⟩ := Option.map_eq_some_iff.mp h
    exact schedule_elsewhere hn h₁
  | timerInt => exact absurd rfl hop
  | taskJoin taskId =>
    obtain ⟨_, h⟩ := Option.ite_none_right_eq_some.mp h
    split at h
    · split at h
      · exact joinOn_elsewhere hn h
      · cases h
        exact (Quiet.refl s).elsewhere
    · cases h
      exact (Quiet.refl s).elsewhere
  | processJoin procId =>
    obtain ⟨_, h⟩ := Option.ite_none_right_eq_some.mp h
    split at h
    · obtain ⟨u, _, h⟩ := Option.bind_eq_some_iff.mp h
      exact joinOn_elsewhere hn h
    · cases h
      exact (Quiet.refl s).elsewhere
  | taskTerminate taskId =>
    obtain ⟨⟨b, s₁⟩, hcall, rfl⟩ := Option.map_eq_some_iff.mp h
    obtain ⟨_, hcall⟩ := Option.ite_none_right_eq_some.mp hcall
    split at hcall
    · obtain ⟨s₂, h₂, hcall⟩ := Option.bind_eq_some_iff.mp hcall
      cases hcall
      exact terminate_elsewhere hn h₂
    · cases hcall
      exact (Quiet.refl s).elsewhere
  | processTerminate processId =>
    obtain ⟨⟨b, s₁⟩, hcall, rfl⟩ := Option.map_eq_some_iff.mp h
    obtain ⟨_, hcall⟩ := Option.ite_none_right_eq_some.mp hcall
    split at hcall
    · obtain ⟨u, _, hcall⟩ := Option.bind_eq_some_iff.mp hcall
      obtain ⟨s₂, h₂, hcall⟩ := Option.bind_eq_some_iff.mp hcall
      cases hcall
      exact terminate_elsewhere hn h₂
    · cases hcall
      exact (Quiet.refl s).elsewhere
  | taskResume taskId =>
    obtain ⟨⟨b, s₁⟩, hcall, rfl⟩ := Option.map_eq_some_iff.mp h
    obtain ⟨_, hcall⟩ := Option.ite_none_right_eq_some.mp hcall
    split at hcall
    · rename_i u _
      have hquiet := resume_quiet s u
      rw [Option.some.inj hcall] at hquiet
      exact hquiet.elsewhere
    · cases hcall
      exact (Quiet.refl s).elsewhere
  | idleReap =>
    obtain ⟨⟨pTask, s₁⟩, h₁, h⟩ := Option.bind_eq_some_iff.mp h
    obtain ⟨g, rfl⟩ := popTask_frame h₁
    cases pTask with
    | none =>
      cases h
      exact ⟨rfl, Or.inl ⟨rfl, rfl⟩⟩
    | some u => exact (Quiet.mk rfl rfl rfl : Quiet s { s with nodes := g }).before (reap_quiet h).elsewhere
  | fpu f =>
    cases h
    obtain ⟨ctx, used, ts, fpu, last, e⟩ := fpuInstruction_eq finit f s
    rw [e]
    exact ⟨rfl, Or.inl ⟨rfl, rfl⟩⟩
  | write addr value =>
    cases h
    exact ⟨rfl, Or.inl ⟨rfl, rfl⟩⟩

end

/-- such a call is an event between two steps of the idle task -/
theorem exec_event {finit : FpuContext} {hw : Bool} {op : Op} {l : LoadState} {s' : TaskStruct}
    (hn : l.sched.pNow ≠ idleTask) (hop : op ≠ .timerInt) (h : exec finit hw l.sched op = some s') :
    step l (.other s') = some { l with sched := s', halted := false } :=
  if_pos (exec_elsewhere hn hop h)

end Clubcos.Load
