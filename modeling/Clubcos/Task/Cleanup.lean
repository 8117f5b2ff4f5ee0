import Clubcos.Task.Ids
import Clubcos.Task.Reclaim

/-!
# What is left of a terminated process

The slot of a process is in use from its creation on: `csCleanupProcess` gives the page directory back and
leaves `PageDirectory` as it is.  A task that terminates takes no other task of its process with it.

* `CleanInv`           the process slots against the history of the run;
* `slots_used`         **the slots in use are the processes not cleaned up exactly as long as none is**;
* `terminated_alone`   **a process whose memory is given back has no thread left**, in every run in which a
                       main thread is terminated only as the last thread of its process.
-/

set_option linter.unusedVariables false

namespace Clubcos
open Word Handle

/-- the slots that `ckProcessCreate` does not take -/
def usedSlots (s : TaskStruct) : List ProcPtr :=
  (List.finRange maxProcess).filter fun p => (s.processes p).pageDirectory ≠ 0

/-- the processes created and not yet cleaned up -/
def History.existing (h : History) : List (Nat × ProcPtr) := h.allProcesses.filter fun e => e.2 ∉ h.cleaned

/-- a process that has been terminated -/
def Process.Closed (p : Process) : Prop := p.pageDirectory ≠ 0 ∧ p.pMainThread = none

structure CleanInv (s : TaskStruct) (h : History) : Prop where
  mask : s.processIdMask = u32 (2^10 * (h.processes.length + 1))
  used : ∀ p, (s.processes p).pageDirectory ≠ 0 ↔ p ∈ h.allProcesses.map Prod.snd
  nodup : (h.allProcesses.map Prod.snd).Nodup
  ids : ∀ p, (s.processes p).pageDirectory ≠ 0 →
    (s.processes p).id ≠ processInvalidId ∧ (s.processes p).id &&& processIdIdxMask = p.val
  main : ∀ p, (s.processes p).pMainThread ≠ none → (s.processes p).pageDirectory ≠ 0
  exiting : ∀ t p, (s.tasks t).Exiting → (s.tasks t).pProcess = some p → (s.processes p).Closed
  cleaned : ∀ p ∈ h.cleaned, (s.processes p).Closed

/-! ## a call -/

theorem endedBy_of_started {s : TaskStruct} {op : Op} (h : startedBy s op ≠ none) :
    endedBy s op = none ∧ closedBy s op = none := by
  cases op with
  | taskCreate => exact ⟨rfl, rfl⟩
  | processCreate => exact ⟨rfl, rfl⟩
  | _ => exact absurd rfl h

section
variable {s s' : TaskStruct} {h : History} {op : Op} (he : Effect s op s')
include he

/-- a call that ends a task creates no process -/
theorem Effect.founds_not {t : TaskPtr} (hend : endedBy s op = some t) : foundedBy s op = none := by
  cases hf : foundedBy s op with
  | none => rfl
  | some e =>
    obtain ⟨_, _, _, i, u, hs, _⟩ := he.founded e.1 e.2 hf
    have hne : startedBy s op ≠ none := by
      rw [hs]
      nofun
    rw [(endedBy_of_started hne).1] at hend
    cases hend

/-- the slot of a process that is there is not taken -/
theorem Effect.kept {p : ProcPtr} (hp : (s.processes p).pageDirectory ≠ 0) : ∀ j, foundedBy s op ≠ some (j, p) :=
  fun j hj => hp (he.founded j p hj).1

theorem Effect.closed {p : ProcPtr} (hp : (s.processes p).Closed) : (s'.processes p).Closed := by
  obtain ⟨h1, _, h3⟩ := he.process p (he.kept hp.1)
  refine ⟨h1 ▸ hp.1, ?_⟩
  rw [h3, hp.2]
  exact ite_self none

theorem CleanInv.closes (hi : CleanInv s h) {p : ProcPtr} (hc : closedBy s op = some p) :
    (s'.processes p).Closed := by
  obtain ⟨t, hend, hm⟩ := Option.bind_eq_some_iff.mp hc
  have hmain : (s.processes p).pMainThread ≠ none := by
    rw [(mainOf_some.mp hm).2]
    nofun
  have hf : ∀ j, foundedBy s op ≠ some (j, p) := fun j hj => by
    rw [he.founds_not hend] at hj
    cases hj
  obtain ⟨h1, _, h3⟩ := he.process p hf
  exact ⟨h1 ▸ hi.main p hmain, h3.trans (if_pos hc)⟩

theorem CleanInv.step (hi : CleanInv s h) (hd : op.HasDirectory) : CleanInv s' (h.step s op) := by
  obtain ⟨hmask, hnum⟩ := he.processCount hi.mask
  have hall : (h.step s op).allProcesses.map Prod.snd
      = h.allProcesses.map Prod.snd ++ (foundedBy s op).toList.map Prod.snd := by
    show (h.allProcesses ++ (foundedBy s op).toList).map Prod.snd = _
    exact List.map_append
  have hmem : ∀ p, p ∈ (foundedBy s op).toList.map Prod.snd ↔ ∃ j, foundedBy s op = some (j, p) := by
    intro p
    constructor
    · intro hp
      obtain ⟨⟨j, q⟩, hq, rfl⟩ := List.mem_map.mp hp
      exact ⟨j, Option.mem_toList.mp hq⟩
    · rintro ⟨j, hj⟩
      exact List.mem_map.mpr ⟨(j, p), Option.mem_toList.mpr hj, rfl⟩
  have hold : ∀ p, (∀ j, foundedBy s op ≠ some (j, p)) →
      (s'.processes p).pageDirectory = (s.processes p).pageDirectory ∧
      (s'.processes p).id = (s.processes p).id := fun p hp => ⟨(he.process p hp).1, (he.process p hp).2.1⟩
  exact {
    mask := hmask
    used p := by
      rw [hall, List.mem_append, hmem]
      by_cases hf : ∃ j, foundedBy s op = some (j, p)
      · obtain ⟨j, hj⟩ := hf
        exact iff_of_true (he.directory hd j p hj) (Or.inr ⟨j, hj⟩)
      · rw [(hold p fun j hj => hf ⟨j, hj⟩).1, hi.used p]
        exact ⟨Or.inl, fun h => h.resolve_right hf⟩
    nodup := by
      rw [hall]
      refine List.nodup_append.mpr ⟨hi.nodup, ?_, fun p hp q hq e => ?_⟩
      · cases foundedBy s op with
        | none => exact List.nodup_nil
        | some e => exact List.nodup_singleton _
      · obtain ⟨j, hj⟩ := (hmem q).mp hq
        exact he.kept ((hi.used p).mpr hp) j (e ▸ hj)
    ids p hp := by
      by_cases hf : ∃ j, foundedBy s op = some (j, p)
      · obtain ⟨j, hj⟩ := hf
        obtain ⟨_, _, hid, _⟩ := he.founded j p hj
        rw [hid, hnum j p hj]
        exact ⟨handle_ne_ones (by decide) (by decide : 9 < 10) p.isLt, handle_and (by decide) (by decide : 9 ≤ 10) p.isLt⟩
      · obtain ⟨h1, h2⟩ := hold p fun j hj => hf ⟨j, hj⟩
        rw [h2]
        exact hi.ids p (h1 ▸ hp)
    main p hp := by
      by_cases hf : ∃ j, foundedBy s op = some (j, p)
      · obtain ⟨j, hj⟩ := hf
        exact he.directory hd j p hj
      · obtain ⟨h1, _, h3⟩ := he.process p fun j hj => hf ⟨j, hj⟩
        rw [h3] at hp
        rw [h1]
        by_cases hc : closedBy s op = some p
        · rw [if_pos hc] at hp
          exact absurd rfl hp
        · rw [if_neg hc] at hp
          exact hi.main p hp
    exiting t p ht hp := by
      -- the task was there already, or it is the one that ends
      have hnew : ∀ i, startedBy s op ≠ some (i, t) := by
        intro i hs
        rcases he.exiting t ht with h | h
        · exact h.1 (he.started i t hs).1
        · rw [(endedBy_of_started (by rw [hs]; nofun)).1] at h
          cases h
      rw [he.owner t hnew] at hp
      by_cases hend : endedBy s op = some t
      · rw [if_pos hend] at hp
        exact hi.closes he (Option.bind_eq_some_iff.mpr ⟨t, hend, hp⟩)
      · rw [if_neg hend] at hp
        exact he.closed (hi.exiting t p ((he.exiting t ht).resolve_right hend) hp)
    cleaned p hp := by
      rcases List.mem_append.mp hp with hp | hp
      · exact he.closed (hi.cleaned p hp)
      · rcases he.cleaned p (Option.mem_toList.mp hp) with hc | ⟨t, ht, hp⟩
        · exact hi.closes he hc
        · exact he.closed (hi.exiting t p ht hp)
  }

end

theorem boot_clean (fpu : FpuContext) (mem : Nat → Nat) : CleanInv (ckTaskStructInitialize fpu mem) .empty := by
  have hi := boot_ids fpu mem
  have hslot := (boot_inv fpu mem).1.toSlotInv
  have hused := boot_directory fpu mem
  refine ⟨rfl, fun p => (hused p).trans List.mem_singleton.symm, List.nodup_singleton _, fun p hp => ?_, hi.directory,
    fun t p ht hp => ?_, nofun⟩
  · rw [(hused p).mp hp, hslot.ids.2.2]
    exact ⟨by decide, rfl⟩
  · obtain ⟨k, i, htasks, _, _, hk, _, _, _, _, hf, _⟩ := boot_tasks fpu mem
    rw [htasks] at ht
    by_cases e1 : t = idleTask
    · simp only [if_pos e1] at ht
      cases hf.symm.trans ht.2
    · by_cases e0 : t = kernelTask
      · simp only [if_neg e1, if_pos e0] at ht
        cases hk.symm.trans ht.2
      · simp only [if_neg e1, if_neg e0] at ht
        exact absurd rfl ht.1

/-! ## process slots -/

theorem HistoryRun.clean {finit : FpuContext} {ok : TaskStruct → Op → Prop}
    (hok : ∀ s op, ok s op → op.Reusing s) {s : TaskStruct} {h : History} (hr : HistoryRun finit ok s h) :
    TaskInv s ∧ CleanInv s h := by
  have hi : ∀ {s h}, HistoryRun finit ok s h → TaskInv s := fun hr => hr.inv fun s op ho => (hok s op ho).1
  refine ⟨hi hr, ?_⟩
  induction hr with
  | boot fpu mem => exact boot_clean fpu mem
  | call hr ho e ih => exact ih.step (exec_effect (hi hr) (hok _ _ ho).1 e) (hok _ _ ho).2

theorem CleanInv.usedSlots {s : TaskStruct} {h : History} (hi : CleanInv s h) :
    (Clubcos.usedSlots s).length = h.allProcesses.length := by
  have hnodup : (Clubcos.usedSlots s).Nodup := (List.nodup_finRange _).filter _
  have hperm : (Clubcos.usedSlots s).Perm (h.allProcesses.map Prod.snd) := by
    refine (List.perm_ext_iff_of_nodup hnodup hi.nodup).mpr fun p => ?_
    rw [← hi.used p, Clubcos.usedSlots, List.mem_filter, decide_eq_true_iff]
    exact and_iff_right (List.mem_finRange p)
  rw [hperm.length_eq, List.length_map]

theorem freeProcess_none {s : TaskStruct} : freeProcess s = none ↔ (usedSlots s).length = maxProcess := by
  have hfull : (usedSlots s).length = maxProcess ↔ ∀ p, (s.processes p).pageDirectory ≠ 0 := by
    have hlen : maxProcess = (List.finRange maxProcess).length := List.length_finRange.symm
    rw [hlen, usedSlots, List.length_filter_eq_length_iff]
    exact ⟨fun hp p => of_decide_eq_true (hp p (List.mem_finRange p)), fun hp p _ => decide_eq_true (hp p)⟩
  rw [hfull, freeProcess, firstSlot_none]
  exact ⟨fun hp p => of_decide_eq_false (hp p (Nat.zero_le _) (by omega)),
    fun hp p _ _ => decide_eq_false (hp p)⟩

/-- **Creation succeeds as long as fewer than `MAX_PROCESS` processes have ever been created.** -/
theorem CleanInv.creates {s : TaskStruct} {h : History} (hi : CleanInv s h) (hfree : freeTask s ≠ none)
    {parentProcessId : Nat} (hpar : csGetProcessFromId s parentProcessId ≠ none) (stack stacksize : Nat)
    (priority : TaskPriority) (pageDirectory pageDirSize cr3 : Nat) (procData : ProcessData) :
    (ckProcessCreate s stack stacksize priority pageDirectory pageDirSize cr3 procData parentProcessId).1
      ≠ processInvalidId ↔ h.allProcesses.length ≠ maxProcess := by
  obtain ⟨i, hf⟩ := Option.ne_none_iff_exists'.mp hfree
  obtain ⟨parent, hp⟩ := Option.ne_none_iff_exists'.mp hpar
  have hnone := freeProcess_none (s := s)
  rw [hi.usedSlots] at hnone
  rw [Ne, Ne, ← hnone]
  cases hq : freeProcess s with
  | none =>
    refine iff_of_false (fun hne => hne ?_) fun hne => hne rfl
    unfold ckProcessCreate
    rw [hp, hq]
  | some q =>
    refine iff_of_true ?_ nofun
    rw [ckProcessCreate_eq hp hq hf, hi.mask]
    exact handle_ne_ones (by decide) (by decide : 9 < 10) q.isLt

/-- **The slots in use are those of the processes not yet cleaned up exactly as long as none has been
cleaned up**, and until then a process can be created while fewer than `MAX_PROCESS` exist. -/
theorem slots_used {finit : FpuContext} {s : TaskStruct} {h : History} (hr : HistoryRun finit Op.Reusing s h) :
    ((usedSlots s).length = h.existing.length ∧
      (h.existing.length < maxProcess → freeTask s ≠ none → ∀ stack stacksize priority pageDirectory pageDirSize cr3
        procData parentProcessId, csGetProcessFromId s parentProcessId ≠ none →
        (ckProcessCreate s stack stacksize priority pageDirectory pageDirSize cr3 procData parentProcessId).1
          ≠ processInvalidId)) ↔ h.cleaned = [] := by
  obtain ⟨_, hi⟩ := hr.clean fun _ _ ho => ho
  rw [hi.usedSlots]
  constructor
  · rintro ⟨hlen, _⟩
    have hall := List.length_filter_eq_length_iff.mp hlen.symm
    refine List.eq_nil_iff_forall_not_mem.mpr fun p hp => ?_
    obtain ⟨e, he, rfl⟩ := List.mem_map.mp ((hi.used p).mp (hi.cleaned p hp).1)
    exact of_decide_eq_true (hall e he) hp
  · intro hc
    have hall : h.existing = h.allProcesses := by
      refine List.filter_eq_self.mpr fun e _ => decide_eq_true ?_
      rw [hc]
      exact List.not_mem_nil
    rw [hall]
    exact ⟨rfl, fun hlt hfree stack stacksize priority pageDirectory pageDirSize cr3 procData parentProcessId hpar =>
      (hi.creates hfree hpar ..).mpr (Nat.ne_of_lt hlt)⟩

/-- a call that terminates nothing -/
def Op.Sparing (s : TaskStruct) (op : Op) : Prop := op.Counted s ∧ endedBy s op = none

instance (s : TaskStruct) (op : Op) : Decidable (op.Sparing s) := inferInstanceAs (Decidable (_ ∧ _))

theorem Op.Sparing.reusing {s : TaskStruct} {op : Op} (h : op.Sparing s) : op.Reusing s := ⟨h.1.1, h.1.2.1⟩

def foundRun : List Op := [.processCreate 0 0 .realtime 0x500000 0 0 ⟨0⟩ 0]

theorem foundRun_some : (historyAll 0 Op.Sparing foundRun bootState .empty).isSome := by decide +kernel

def foundState : TaskStruct × History := (historyAll 0 Op.Sparing foundRun bootState .empty).get foundRun_some

theorem foundState_run : HistoryRun 0 Op.Sparing foundState.1 foundState.2 :=
  historyAll_run (.boot 0 fun _ => 0) (Option.some_get foundRun_some).symm

theorem slots_used_foundRun : (usedSlots foundState.1).length = foundState.2.existing.length :=
  ((slots_used (foundState_run.mono fun _ _ ho => ho.reusing)).mpr (by decide +kernel)).1

/-- the process is terminated from the kernel task -/
theorem leak_some : (exec 0 false foundState.1 (.processTerminate 1025)).isSome := by decide +kernel

def leakState : TaskStruct := (exec 0 false foundState.1 (.processTerminate 1025)).get leak_some

theorem leakState_eq : exec 0 false foundState.1 (.processTerminate 1025) = some leakState := (Option.some_get leak_some).symm

theorem leak_reusing : (Op.processTerminate 1025).Reusing foundState.1 := ⟨⟨by decide, trivial⟩, trivial⟩

def leakHistory : History := foundState.2.step foundState.1 (.processTerminate 1025)

theorem leakState_run : HistoryRun 0 Op.Reusing leakState leakHistory :=
  (foundState_run.mono fun _ _ ho => ho.reusing).call leak_reusing leakState_eq

/-- **The slot of a process that was cleaned up stays in use.** -/
theorem slot_leaked : HistoryRun 0 Op.Reusing leakState leakHistory ∧ leakHistory.cleaned = [1] ∧
    (usedSlots leakState).length = 2 ∧ leakHistory.existing = [(kernelProcessId, kernelProcess)] := by
  refine ⟨leakState_run, by decide +kernel, ?_, by decide +kernel⟩
  rw [(leakState_run.clean fun _ _ ho => ho).2.usedSlots]
  decide +kernel

/-! ## the threads of a process -/

/-- `ckProcessTerminate(g_pTaskStruct->pNow->pProcess->id)` -/
def ckProcessExit (s : TaskStruct) (hw : Bool) : Option TaskStruct := do
  let pProc ← (s.tasks s.pNow).pProcess
  (ckProcessTerminate s (s.processes pProc).id hw).map Prod.snd

/-- if the call terminates a main thread, that is the last thread of its process -/
def Op.Alone (s : TaskStruct) (op : Op) : Prop :=
  ∀ u ∈ endedBy s op, ∀ p ∈ mainOf s u, ∀ t, (s.tasks t).Live → (s.tasks t).pProcess = some p → t = u

def Op.Lone (s : TaskStruct) (op : Op) : Prop := op.Reusing s ∧ op.Alone s

/-- the process of every task has not been terminated -/
def Peopled (s : TaskStruct) : Prop :=
  ∀ t p, (s.tasks t).Live → (s.tasks t).pProcess = some p → (s.processes p).pMainThread ≠ none

theorem Effect.peopled {s s' : TaskStruct} {op : Op} (he : Effect s op s') (ha : op.Alone s) (hp : Peopled s) :
    Peopled s' := by
  intro t p ht hown
  -- a new process has a main thread
  by_cases hf : ∃ j, foundedBy s op = some (j, p)
  · obtain ⟨j, hj⟩ := hf
    obtain ⟨_, _, _, i, m, _, hm⟩ := he.founded j p hj
    rw [hm]
    nofun
  · rw [(he.process p fun j hj => hf ⟨j, hj⟩).2.2]
    rcases (he.live t).mp ht with ⟨hl, hne⟩ | ⟨i, hs⟩
    · have hnew : ∀ i, startedBy s op ≠ some (i, t) := fun i hs => hl.1 (he.started i t hs).1
      rw [he.owner t hnew, if_neg hne] at hown
      have hkeep : closedBy s op ≠ some p := by
        intro hc
        obtain ⟨u, hend, hm⟩ := Option.bind_eq_some_iff.mp hc
        exact hne (ha u hend p hm t hl hown ▸ hend)
      rw [if_neg hkeep]
      exact hp t p hl hown
    · have hend : closedBy s op = none := (endedBy_of_started (by rw [hs]; nofun)).2
      rw [hend, if_neg nofun]
      obtain ⟨q, hq, hv⟩ := he.ownerNew i t hs
      obtain rfl : q = p := Option.some.inj (hq.symm.trans hown)
      exact (hv.resolve_left hf).2.2

theorem boot_peopled (fpu : FpuContext) (mem : Nat → Nat) : Peopled (ckTaskStructInitialize fpu mem) := by
  have hi := boot_ids fpu mem
  have hslot := (boot_inv fpu mem).1.toSlotInv
  intro t p ht hown
  have hproc : p = kernelProcess := by
    rcases List.mem_cons.mp (hi.tasks.given t ht).1 with h | h
    · obtain rfl : t = kernelTask := congrArg Prod.snd h
      exact Option.some.inj (hown.symm.trans (hslot.main _ _ hslot.main0).2)
    · rcases List.mem_cons.mp h with h | h
      · obtain rfl : t = idleTask := congrArg Prod.snd h
        exact Option.some.inj (hown.symm.trans hslot.idle0)
      · cases h
  rw [hproc, hslot.main0]
  nofun

theorem HistoryRun.peopled {finit : FpuContext} {s : TaskStruct} {h : History} (hr : HistoryRun finit Op.Lone s h) :
    Peopled s := by
  induction hr with
  | boot fpu mem => exact boot_peopled fpu mem
  | call hr ho e ih =>
    exact (exec_effect (hr.inv fun _ _ ho => ho.1.1) ho.1.1 e).peopled ho.2 ih

/-- a task that has ended does not run again before its slot is given to a new one -/
theorem Path.ended {finit : FpuContext} {s s' : TaskStruct} {t : TaskPtr} (hi : TaskInv s) (ht : ¬ (s.tasks t).Live)
    (hp : Path finit (fun x op => op.Proper x ∧ ∀ i, startedBy x op ≠ some (i, t)) (fun _ => True) s s') :
    TaskInv s' ∧ ¬ (s'.tasks t).Live := by
  induction hp with
  | refl => exact ⟨hi, ht⟩
  | call _ ho e _ ih =>
    refine ⟨(ho.1.step ih.1 e).1, fun hl => ?_⟩
    rcases ((exec_effect ih.1 ho.1 e).live t).mp hl with h | ⟨i, h⟩
    · exact ih.2 h.1
    · exact ho.2 i h

/-- the call of `ckProcessExit` ends the task that makes it -/
theorem ckProcessExit_ends {s s₁ : TaskStruct} {h : History} {p : ProcPtr} {hw : Bool} (ht : TaskInv s)
    (hi : CleanInv s h) (hpeople : Peopled s) (hp : (s.tasks s.pNow).pProcess = some p)
    (ha : (Op.processTerminate (s.processes p).id).Alone s) (e : ckProcessExit s hw = some s₁) :
    TaskInv s₁ ∧ ¬ (s₁.tasks s.pNow).Live := by
  have hnow := ht.now_live
  have hmain := hpeople _ p hnow hp
  obtain ⟨m, hm⟩ := Option.ne_none_iff_exists'.mp hmain
  obtain ⟨hinv, hand⟩ := hi.ids p (hi.main p hmain)
  have hfind : csGetProcessFromId s (s.processes p).id = some p :=
    csGetProcessFromId_eq (P := False) hinv hand (iff_of_true ⟨⟨hi.main p hmain, hmain⟩, rfl⟩ not_false)
  have hend : endedBy s (.processTerminate (s.processes p).id) = some m := by
    rw [endedBy, hfind]
    exact hm
  have hself : s.pNow = m := ha m hend p (mainOf_some.mpr ⟨(ht.1.main p m hm).2, hm⟩) s.pNow hnow hp
  have hexec : exec 0 hw s (.processTerminate (s.processes p).id) = some s₁ := by
    unfold ckProcessExit at e
    rw [hp] at e
    exact e
  -- the kernel process is not terminated: the assertion fails
  have hproper : (Op.processTerminate (s.processes p).id).Proper s := by
    refine ⟨fun hk => ?_, trivial⟩
    have hnone : ckProcessTerminate s (s.processes p).id hw = none := if_neg (not_not_intro hk)
    rw [exec, hnone] at hexec
    cases hexec
  have heff := exec_effect ht hproper hexec
  refine ⟨(hproper.step ht hexec).1, fun hl => ?_⟩
  rcases (heff.live s.pNow).mp hl with hl | ⟨i, hl⟩
  · exact hl.2 (hself ▸ hend)
  · cases hl

/-- **A process whose memory is given back has no thread left** and `ckProcessExit` does not return, in every
run in which a main thread is terminated only as the last thread of its process. -/
theorem terminated_alone {finit : FpuContext} {s : TaskStruct} {h : History} (hr : HistoryRun finit Op.Lone s h) :
    (∀ op hw s', op.Lone s → exec finit hw s op = some s' → Reclaims s op s') ∧
    (∀ p ∈ s.pages.cleaned, ∀ t, (s.tasks t).selector ≠ 0 → (s.tasks t).flag ∈ [.running, .ready, .wait] →
      (s.tasks t).pProcess ≠ some p) ∧
    ∀ p hw s₁, (s.tasks s.pNow).pProcess = some p → (Op.processTerminate (s.processes p).id).Alone s →
      ckProcessExit s hw = some s₁ → ∀ s',
      Path finit (fun x op => op.Proper x ∧ ∀ i, startedBy x op ≠ some (i, s.pNow)) (fun _ => True) s₁ s' →
      s'.pNow ≠ s.pNow := by
  obtain ⟨ht, hi⟩ := hr.clean fun _ _ ho => ho.1
  have hpeople := hr.peopled
  have hcleaned := hr.cleaned fun _ _ ho => ho.1.1
  refine ⟨fun op hw s' _ e => exec_reclaims ht e, fun p hp t hsel hflag hown => ?_,
    fun p hw s₁ hp ha e s' hpath hnow => ?_⟩
  · have hlive : (s.tasks t).Live := ⟨hsel, fun hf => by rw [hf] at hflag; simp at hflag⟩
    exact hpeople t p hlive hown (hi.cleaned p (hcleaned ▸ hp)).2
  · obtain ⟨hi₁, hend⟩ := ckProcessExit_ends ht hi hpeople hp ha e
    obtain ⟨hi', hend'⟩ := hpath.ended hi₁ hend
    exact hend' (hnow ▸ hi'.now_live)

/-- only the tasks of the run can be alive -/
theorem IdInv.alone {s : TaskStruct} {h : History} {op : Op} (hi : IdInv s h) {u : TaskPtr} {p : ProcPtr}
    (hend : endedBy s op = some u) (hmain : mainOf s u = some p)
    (ha : (h.allTasks.map Prod.snd).filter (fun t => (s.tasks t).pProcess = some p) = [u]) : op.Alone s := by
  intro v hv q hq t ht hown
  obtain rfl : u = v := Option.some.inj (hend.symm.trans hv)
  obtain rfl : p = q := Option.some.inj (hmain.symm.trans hq)
  have hmem : t ∈ (h.allTasks.map Prod.snd).filter fun t => (s.tasks t).pProcess = some p :=
    List.mem_filter.mpr ⟨List.mem_map_of_mem (hi.tasks.given t ht).1, decide_eq_true hown⟩
  exact List.mem_singleton.mp (ha ▸ hmem)

theorem Op.Sparing.lone {s : TaskStruct} {op : Op} (h : op.Sparing s) : op.Lone s :=
  ⟨h.reusing, fun u hu => by rw [h.2] at hu; cases hu⟩

/-- the main thread gets the processor -/
def mainRun : List Op := foundRun ++ [.schedule]

theorem mainRun_some : (historyAll 0 Op.Sparing mainRun bootState .empty).isSome := by decide +kernel

def mainState : TaskStruct × History := (historyAll 0 Op.Sparing mainRun bootState .empty).get mainRun_some

theorem mainState_run : HistoryRun 0 Op.Sparing mainState.1 mainState.2 :=
  historyAll_run (.boot 0 fun _ => 0) (Option.some_get mainRun_some).symm

theorem mainExit_some : (ckProcessExit mainState.1 false).isSome := by decide +kernel

def mainExit : TaskStruct := (ckProcessExit mainState.1 false).get mainExit_some

/-- the process is cleaned up when the kernel task terminates it, and when its main thread calls `ckProcessExit` -/
theorem terminated_alone_foundRun : Reclaims foundState.1 (.processTerminate 1025) leakState ∧
    1 ∈ leakState.pages.cleaned ∧ (leakState.tasks kernelTask).pProcess ≠ some 1 ∧ mainExit.pNow ≠ 2 := by
  have hids : IdInv foundState.1 foundState.2 :=
    (foundState_run.mono fun _ _ ho => ho.1).ids (by decide +kernel) (by decide +kernel)
  have hids' : IdInv mainState.1 mainState.2 :=
    (mainState_run.mono fun _ _ ho => ho.1).ids (by decide +kernel) (by decide +kernel)
  have hfound : HistoryRun 0 Op.Lone foundState.1 foundState.2 := foundState_run.mono fun _ _ ho => ho.lone
  have hlone : (Op.processTerminate 1025).Lone foundState.1 := ⟨leak_reusing, hids.alone (u := 2) (p := 1)
    (by decide +kernel) (by decide +kernel) (by decide +kernel)⟩
  have hleak : HistoryRun 0 Op.Lone leakState leakHistory := hfound.call hlone leakState_eq
  have hmain : HistoryRun 0 Op.Lone mainState.1 mainState.2 := mainState_run.mono fun _ _ ho => ho.lone
  have hnow : mainState.1.pNow = 2 := by decide +kernel
  have halone : (Op.processTerminate (mainState.1.processes 1).id).Alone mainState.1 :=
    hids'.alone (u := 2) (p := 1) (by decide +kernel) (by decide +kernel) (by decide +kernel)
  have hexit := (terminated_alone hmain).2.2 1 false mainExit (by decide +kernel) halone
    (Option.some_get mainExit_some).symm mainExit .refl
  have hone : 1 ∈ leakState.pages.cleaned := by
    rw [← hleak.cleaned fun _ _ ho => ho.1.1]
    decide +kernel
  exact ⟨(terminated_alone hfound).1 _ false leakState hlone leakState_eq, hone,
    (terminated_alone hleak).2.1 1 hone kernelTask (by decide +kernel) (by decide +kernel), hnow ▸ hexit⟩

/-- the second thread of a process gets the processor -/
def secondRun : List Op := [.processCreate 0 0 .low 0x500000 0x1000 0 ⟨0⟩ 0, .taskCreate 0 0 1025 .realtime, .schedule]

theorem secondRun_some : (historyAll 0 Op.Reusing secondRun bootState .empty).isSome := by decide +kernel

def secondState : TaskStruct × History := (historyAll 0 Op.Reusing secondRun bootState .empty).get secondRun_some

theorem survivor_some : (ckProcessExit secondState.1 false).isSome := by decide +kernel

def survivorState : TaskStruct := (ckProcessExit secondState.1 false).get survivor_some

/-- **A second thread survives its process**: it calls `ckProcessExit`, which terminates the main thread, gives the
page directory back and returns. -/
theorem thread_survives : HistoryRun 0 Op.Reusing secondState.1 secondState.2 ∧ secondState.1.pNow = 3 ∧
    (secondState.1.tasks 3).pProcess = some 1 ∧ (secondState.1.processes 1).pageDirectory = 0x500000 ∧
    ckProcessExit secondState.1 false = some survivorState ∧
    exec 0 false secondState.1 (.processTerminate 1025) = some survivorState ∧
    survivorState.pages.cleaned = [1] ∧ (0x500000, 0x1000) ∈ survivorState.pages.freed ∧ survivorState.pNow = 3 ∧
    (survivorState.tasks 3).selector ≠ 0 ∧ (survivorState.tasks 3).flag = .running ∧
    (survivorState.tasks 3).pProcess = some 1 := by
  have hexit : ckProcessExit secondState.1 false = some survivorState := (Option.some_get survivor_some).symm
  have hown : (secondState.1.tasks secondState.1.pNow).pProcess = some 1 := by decide +kernel
  have hid : (secondState.1.processes 1).id = 1025 := by decide +kernel
  have hexec : exec 0 false secondState.1 (.processTerminate 1025) = ckProcessExit secondState.1 false := by
    rw [ckProcessExit, hown]
    show _ = (ckProcessTerminate secondState.1 (secondState.1.processes 1).id false).map Prod.snd
    rw [hid]
    rfl
  have hrun : HistoryRun 0 Op.Reusing secondState.1 secondState.2 :=
    historyAll_run (.boot 0 fun _ => 0) (Option.some_get secondRun_some).symm
  have hok : ∀ s op, Op.Reusing s op → Op.Proper s op := fun _ _ ho => ho.1
  have hreclaims := exec_reclaims (hrun.inv hok) (hexec.trans hexit)
  have hclean : cleanedBy secondState.1 (.processTerminate 1025) = some 1 := by decide +kernel
  have hdir : (secondState.1.processes 1).pageDirectory = 0x500000 ∧ (secondState.1.processes 1).pageDirSize = 0x1000 :=
    ⟨by decide +kernel, by decide +kernel⟩
  refine ⟨hrun, by decide +kernel, by decide +kernel, hdir.1, hexit, hexec.trans hexit, ?_, ?_, ?_, ?_, ?_, ?_⟩
  · rw [hreclaims.cleaned, hclean, ← hrun.cleaned hok]
    decide +kernel
  · obtain ⟨calls, hfreed, hgives⟩ := hreclaims.given 1 hclean (by rw [hdir.1]; decide) (by rw [hdir.1]; decide)
    have hmem := hgives.directory (by rw [hdir.2]; decide)
    rw [hdir.1, hdir.2] at hmem
    rw [hfreed]
    exact List.mem_append_right _ (List.mem_append_left _ hmem)
  · decide +kernel
  · decide +kernel
  · decide +kernel
  · decide +kernel

end Clubcos
