import Clubcos.Task.Run

/-!
# Joining

* `join_waits`        **a task that joins waits until one of the two has ended**, in every run without a
                      `ckTaskResume` of a task that waits for another one;
* `resumed_waiter`    such a `ckTaskResume` makes the task READY with `WaitObj` still set.
-/

set_option linter.unusedVariables false
set_option linter.unusedSectionVars false

namespace Clubcos
open Word

theorem maxTask_card : Fintype.card TaskPtr < 2^32 := by
  rw [Fintype.card_fin]
  decide

theorem TaskInv.linked {s : TaskStruct} (hi : TaskInv s) {t u : TaskPtr} (h : (s.tasks t).waitObj = some u) :
    (s.tasks t).flag = .wait ∧ ∃ ns, Spelled s.waits u ns ∧ t ∈ ns := by
  obtain ⟨hu, _, hf⟩ := hi.1.waitObj t u h
  obtain ⟨ns, hns, hmem⟩ := hi.1.waits.spelled maxTask_card hu
  exact ⟨hf, ns, hns, (hmem t).mpr h⟩

/-- the state after the current task has joined -/
theorem ckTaskJoin_waits {s s' : TaskStruct} (hi : TaskInv s) (hidle : s.pNow ≠ idleTask) {taskId : Nat}
    {u : TaskPtr} (hu : csGetTaskFromId s taskId = some u) {hw : Bool} (e : ckTaskJoin s taskId hw = some s') :
    TaskInv s' ∧ (s'.tasks s.pNow).waitObj = some u := by
  have hlive := (csGetTaskFromId_some hu).1
  unfold ckTaskJoin at e
  rw [if_pos (now_waits_not hi), hu] at e
  simp only [if_pos hlive.2] at e
  obtain ⟨t, p, s₁, _, e₁, hs, hi₁⟩ := joinOn_spec hi hlive hidle hw
  obtain rfl : s₁ = s' := Option.some.inj (e₁.symm.trans e)
  refine ⟨hi₁, ?_⟩
  obtain ⟨_, htasks⟩ := hs.tasks
  rw [htasks]
  show (Function.update s.tasks s.pNow _ s.pNow).waitObj = _
  rw [Function.update_self]

/-- a waiting task waits on along a run, as long as neither task has ended -/
theorem Path.waiting {finit : FpuContext} {s s' : TaskStruct} {t u : TaskPtr} (hi : TaskInv s)
    (hwait : (s.tasks t).waitObj = some u)
    (hp : Path finit Op.Proper (fun x => (x.tasks t).Live ∧ (x.tasks u).Live) s s') :
    TaskInv s' ∧ (s'.tasks t).waitObj = some u := by
  induction hp with
  | refl => exact ⟨hi, hwait⟩
  | call _ ho e hK ih =>
    obtain ⟨hi', hs⟩ := ho.step ih.1 e
    exact ⟨hi', hs.keeps_waiting ih.1 ih.2 hK.1 hK.2⟩

/-- **Join waits for termination**: in every state of a run a task with `WaitObj` set is in WAIT and in
that task's `WaitMeList`, every call comes back, and a task that joined `u` is in WAIT for as long as
neither of the two has ended. -/
theorem join_waits {finit : FpuContext} {s : TaskStruct} (h : Reach finit Op.Proper s) :
    (∀ t u, (s.tasks t).waitObj = some u →
      (s.tasks t).flag = .wait ∧ ∃ ns, Spelled s.waits u ns ∧ t ∈ ns) ∧
    (∀ op hw, op.Proper s → ∃ s', exec finit hw s op = some s') ∧
    ∀ taskId u hw s₁ s', s.pNow ≠ idleTask → csGetTaskFromId s taskId = some u →
      ckTaskJoin s taskId hw = some s₁ →
      Path finit Op.Proper (fun x => (x.tasks s.pNow).Live ∧ (x.tasks u).Live) s₁ s' →
      (s'.tasks s.pNow).flag = .wait ∧ (s'.tasks s.pNow).waitObj = some u := by
  have hi := h.inv fun _ _ ho => ho
  refine ⟨fun t u => hi.linked, fun op hw ho => ?_, fun taskId u hw s₁ s' hidle hu e hp => ?_⟩
  · obtain ⟨s', e, _⟩ := exec_spec finit hw hi ho.1 ho.2
    exact ⟨s', e⟩
  · obtain ⟨hi₁, hwait⟩ := ckTaskJoin_waits hi hidle hu e
    obtain ⟨hi', hwait'⟩ := hp.waiting hi₁ hwait
    exact ⟨(hi'.1.waitObj _ _ hwait').2.2, hwait'⟩

/-- a task is created in the kernel process, gets the processor and joins the kernel task -/
def joinRun : List Op := [.taskCreate 0 0 0 .realtime, .schedule, .taskJoin 0]

theorem joinRun_some : (execAll 0 Op.Proper joinRun bootState).isSome := by decide +kernel

def joinState : TaskStruct := (execAll 0 Op.Proper joinRun bootState).get joinRun_some

theorem join_waits_joinRun : (joinState.tasks 2).waitObj = some kernelTask ∧
    (joinState.tasks 2).flag = .wait ∧ ∃ ns, Spelled joinState.waits kernelTask ns ∧ 2 ∈ ns := by
  have hreach : Reach 0 Op.Proper joinState :=
    execAll_reach (.boot 0 fun _ => 0) (Option.some_get joinRun_some).symm
  have hwait : (joinState.tasks 2).waitObj = some kernelTask := by decide +kernel
  exact ⟨hwait, (join_waits hreach).1 2 kernelTask hwait⟩

/-- then the kernel task resumes it -/
def resumeRun : List Op := joinRun ++ [.schedule, .taskResume 4098]

theorem resumeRun_some : (execAll 0 Op.Allowed resumeRun bootState).isSome := by decide +kernel

def resumeState : TaskStruct := (execAll 0 Op.Allowed resumeRun bootState).get resumeRun_some

/-- **A waiting task that is resumed** is READY with `WaitObj` set while the task that it joined still
lives, and its termination fails. -/
theorem resumed_waiter : Reach 0 Op.Allowed resumeState ∧ (resumeState.tasks 2).waitObj = some kernelTask ∧
    (resumeState.tasks kernelTask).Live ∧ (resumeState.tasks 2).flag = .ready ∧
    (Op.taskTerminate 4098).Allowed resumeState ∧ exec 0 false resumeState (.taskTerminate 4098) = none := by
  refine ⟨execAll_reach (.boot 0 fun _ => 0) (Option.some_get resumeRun_some).symm, ?_, ?_, ?_, ?_, ?_⟩
  · decide +kernel
  · exact ⟨by decide +kernel, by decide +kernel⟩
  · decide +kernel
  · decide +kernel
  · have h : (exec 0 false resumeState (.taskTerminate 4098)).isNone := by decide +kernel
    exact Option.isNone_iff_eq_none.mp h

end Clubcos
