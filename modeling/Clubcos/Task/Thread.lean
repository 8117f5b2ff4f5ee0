import Clubcos.Task.History

/-!
# Threads and their `ThreadList`

A process keeps its main thread in `pMainThread` until that thread ends; the other threads leave `ThreadList` when they
end.  So a list holds the threads that have not ended, as long as the process has its main thread.

* `Spelled.unique`    a well-formed list is spelled in one way only;
* `OwnedInv`          whatever still belongs to a process with a main thread is live;
* `OwnedInv.step`     a call keeps this;
* `threads_good`      **the lists in every run** in which no slot of a main thread is used again.
-/

set_option linter.unusedVariables false

namespace Clubcos
open Word Ring

theorem Spelled.unique {L N : Type} [DecidableEq L] [DecidableEq N] {h : Heap L N} {l : L} {ns ns' : List N}
    (hs : Spelled h l ns) (hs' : Spelled h l ns') : ns = ns' := by
  have hlen : ns.length < ns.length + ns'.length + 1 := by omega
  have hlen' : ns'.length < ns.length + ns'.length + 1 := by omega
  have h1 := hs.ring.forth (dummy_notMem l ns) (by rw [List.length_map]; exact hlen)
  have h2 := hs'.ring.forth (dummy_notMem l ns') (by rw [List.length_map]; exact hlen')
  have hinj : Function.Injective (Addr.node : N → Addr L N) := fun _ _ e => Addr.node.inj e
  exact List.map_injective_iff.mpr hinj (Option.some.inj (h1.symm.trans h2))

/-- A task that has ended may still belong to a process, but to none with a main thread. -/
def OwnedInv (s : TaskStruct) : Prop :=
  ∀ t p, (s.tasks t).pProcess = some p → (s.processes p).pMainThread ≠ none → (s.tasks t).Live

theorem boot_owned (fpu : FpuContext) (mem : Nat → Nat) : OwnedInv (ckTaskStructInitialize fpu mem) := by
  intro t p hp _
  rw [boot_proc] at hp
  by_cases e : t = kernelTask ∨ t = idleTask
  · rcases e with rfl | rfl
    · exact (boot_inv fpu mem).1.kernel
    · exact (boot_inv fpu mem).1.idle.1
  · rw [if_neg e] at hp
    cases hp

/-- **A call leaves no ended task in a process with a main thread.** -/
theorem OwnedInv.step {s s' : TaskStruct} {op : Op} {f : ProcPtr → Option ProcPtr} (ho : OwnedInv s)
    (hf : FamilyInv s f) (he : Effect s op s') : OwnedInv s' := by
  intro t p hp hmain
  by_cases hstart : ∃ i, startedBy s op = some (i, t)
  · exact (he.live t).mpr (Or.inr hstart)
  · have hnew : ∀ i, startedBy s op ≠ some (i, t) := fun i e => hstart ⟨i, e⟩
    rw [he.owner t hnew] at hp
    -- the task belonged to the process before
    have hown : (s.tasks t).pProcess = some p := by
      by_cases hend : endedBy s op = some t
      · rw [if_pos hend] at hp
        exact (mainOf_some.mp hp).1
      · rwa [if_neg hend] at hp
    have hold : ∀ j, foundedBy s op ≠ some (j, p) := by
      intro j hj
      exact hf.owner t p hown (he.founded j p hj).1
    rw [(he.process p hold).2.2] at hmain
    by_cases hclosed : closedBy s op = some p
    · rw [if_pos hclosed] at hmain
      exact absurd rfl hmain
    · rw [if_neg hclosed] at hmain
      have hend : endedBy s op ≠ some t := by
        intro hend
        rw [if_pos hend] at hp
        apply hclosed
        rw [closedBy, hend]
        exact hp
      exact (he.live t).mpr (Or.inl ⟨ho t p hown hmain, hend⟩)

theorem Reach.owned {finit : FpuContext} {s : TaskStruct} (h : Reach finit Op.Orderly s) :
    TaskInv s ∧ (∃ f, FamilyInv s f) ∧ OwnedInv s := by
  induction h with
  | boot fpu mem => exact ⟨boot_inv fpu mem, ⟨_, boot_family fpu mem⟩, boot_owned fpu mem⟩
  | call _ ho e ih =>
    obtain ⟨hi, ⟨f, hf⟩, hown⟩ := ih
    obtain ⟨hi', hs⟩ := ho.1.step hi e
    exact ⟨hi', hf.step hi hs ho.2.1 ho.2.2, hown.step hf (exec_effect hi ho.1 e)⟩

/-- **Every `ThreadList` is well formed in every state of a run** in which no creation takes the slot of a main thread;
no `ThreadNode` is in two of them; and the list of a process that has its main thread holds the threads of the process
that have not ended. -/
theorem threads_good {finit : FpuContext} {s : TaskStruct} (h : Reach finit Op.Orderly s) :
    (∀ p, s.InUse p → ∃ ns, Spelled s.threads p ns ∧
      ((s.processes p).pMainThread ≠ none → ∀ t, t ∈ ns ↔ (s.tasks t).Live ∧ (s.tasks t).pProcess = some p)) ∧
    ∀ p p' ns ns' t, s.InUse p → s.InUse p' → Spelled s.threads p ns → Spelled s.threads p' ns' → t ∈ ns → t ∈ ns' →
      p = p' := by
  obtain ⟨hi, ⟨f, hf⟩, hown⟩ := h.owned
  have hlists := fun p hp => hf.threads.spelled maxTask_card (l := p) hp
  refine ⟨fun p hp => ?_, fun p p' ns ns' t hp hp' hns hns' ht ht' => ?_⟩
  · obtain ⟨ns, hns, hmem⟩ := hlists p hp
    refine ⟨ns, hns, fun hmain t => ?_⟩
    rw [hmem t]
    exact ⟨fun e => ⟨hown t p e hmain, e⟩, fun e => e.2⟩
  · have howner : ∀ q qs, s.InUse q → Spelled s.threads q qs → t ∈ qs → s.owner t = some q := by
      intro q qs hq hqs htq
      obtain ⟨rs, hrs, hmem⟩ := hlists q hq
      apply (hmem t).mp
      rwa [hrs.unique hqs]
    exact Option.some.inj ((howner p ns hp hns ht).symm.trans (howner p' ns' hp' hns' ht'))

theorem threads_good_familyRun : familyState.InUse 1 ∧
    ∃ ns, Spelled familyState.threads 1 ns ∧ (2 : TaskPtr) ∈ ns := by
  have huse : familyState.InUse 1 := by
    show (familyState.processes 1).pageDirectory ≠ 0
    decide +kernel
  have hreach : Reach 0 Op.Orderly familyState :=
    execAll_reach (.boot 0 fun _ => 0) (Option.some_get familyRun_some).symm
  obtain ⟨ns, hns, hmem⟩ := (threads_good hreach).1 1 huse
  refine ⟨huse, ns, hns, (hmem ?_ _).mpr ?_⟩
  · decide +kernel
  · show ((familyState.tasks 2).selector ≠ 0 ∧ (familyState.tasks 2).flag ≠ .waitForExit) ∧ _
    decide +kernel

/-- A thread of the kernel process in the slot of a main thread: the `ThreadNode` is linked in two lists, and when a
thread of the other process ends, the list of the kernel process is cut. -/
theorem node_in_two_lists : Reach 0 Op.Reusing reuseState ∧
    reuseState.InUse kernelProcess ∧ (reuseState.processes kernelProcess).pMainThread = some kernelTask ∧
    (reuseState.tasks 2).Live ∧ (reuseState.tasks 2).pProcess = some kernelProcess ∧
    ¬ ∃ ns, Spelled reuseState.threads kernelProcess ns ∧
      ∀ t, t ∈ ns ↔ (reuseState.tasks t).Live ∧ (reuseState.tasks t).pProcess = some kernelProcess := by
  refine ⟨execAll_reach (.boot 0 fun _ => 0) (Option.some_get reuseRun_some).symm, ?_, ?_, ?_, ?_, ?_⟩
  · show (reuseState.processes kernelProcess).pageDirectory ≠ 0
    decide +kernel
  · decide +kernel
  · show (reuseState.tasks 2).selector ≠ 0 ∧ (reuseState.tasks 2).flag ≠ .waitForExit
    decide +kernel
  · decide +kernel
  · rintro ⟨ns, hns, _⟩
    have hlast : reuseState.threads.links.prev (.dummy kernelProcess) = .node 2 := by decide +kernel
    have hbehind : reuseState.threads.links.next (.node 2) = .dummy 1 := by decide +kernel
    have hring := hns.ring.next_prev List.mem_cons_self
    rw [hlast, hbehind] at hring
    cases hring

end Clubcos
