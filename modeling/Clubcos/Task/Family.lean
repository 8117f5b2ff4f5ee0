import Clubcos.Task.Join

/-!
# Processes and their threads

The `ThreadList` and the `ChildProcessList` of a process.  The main thread of a process is never taken
out of `ThreadList`, so the slot of a main thread must not be used again.

* `FamilyInv`       the invariant of these lists;
* `lists_good`      **all lists are well formed in every run** in which no slot of a main thread is
                    used again;
* `main_slot_reused`  a run that uses one again and destroys the `ThreadList` of the kernel process.
-/

set_option linter.unusedVariables false
set_option linter.unusedSectionVars false

namespace Clubcos
open Word

/-- the slot of a task that waits for the idle task to free it -/
def Task.Exiting (t : Task) : Prop := t.selector ≠ 0 ∧ t.flag = .waitForExit

def TaskStruct.InUse (s : TaskStruct) (p : ProcPtr) : Prop := (s.processes p).pageDirectory ≠ 0

def TaskStruct.owner (s : TaskStruct) (t : TaskPtr) : Option ProcPtr := (s.tasks t).pProcess

/-- `f q` is the process whose `ChildProcessList` holds `q`, if any -/
structure FamilyInv (s : TaskStruct) (f : ProcPtr → Option ProcPtr) : Prop where
  threads : Located s.threads s.InUse s.owner
  children : Located s.children s.InUse f
  owner : ∀ t p, (s.tasks t).pProcess = some p → s.InUse p
  parent : ∀ q p, f q = some p → s.InUse p
  fresh : ∀ q, ¬ s.InUse q → f q = none
  alive : ∀ q, (s.processes q).pMainThread ≠ none → f q = (s.processes q).pParentProcess
  exiting : ∀ t q, (s.tasks t).Exiting → (s.tasks t).pProcess = some q →
    f q = (s.processes q).pParentProcess ∧ (s.processes q).pMainThread = none
  unique : ∀ t t' q, (s.tasks t).Exiting → (s.tasks t').Exiting → (s.tasks t).pProcess = some q →
    (s.tasks t').pProcess = some q → t = t'

/-- the fields of a process that its lists depend on -/
def Process.family (p : Process) : Option TaskPtr × Option ProcPtr × Nat :=
  (p.pMainThread, p.pParentProcess, p.pageDirectory)

theorem FamilyInv.frame {s s' : TaskStruct} {f : ProcPtr → Option ProcPtr} (hf : FamilyInv s f)
    (hthreads : s'.threads = s.threads) (hchildren : s'.children = s.children)
    (hproc : ∀ t, (s'.tasks t).pProcess = (s.tasks t).pProcess)
    (hexit : ∀ t, (s'.tasks t).Exiting → (s.tasks t).Exiting)
    (hprocs : ∀ p, (s'.processes p).family = (s.processes p).family) : FamilyInv s' f := by
  have hmain : ∀ p, (s'.processes p).pMainThread = (s.processes p).pMainThread := fun p => congrArg (·.1) (hprocs p)
  have hpar : ∀ p, (s'.processes p).pParentProcess = (s.processes p).pParentProcess :=
    fun p => congrArg (·.2.1) (hprocs p)
  have hdir : ∀ p, (s'.processes p).pageDirectory = (s.processes p).pageDirectory :=
    fun p => congrArg (·.2.2) (hprocs p)
  have huse : s'.InUse = s.InUse := funext fun p => by rw [TaskStruct.InUse, TaskStruct.InUse, hdir]
  have howner : s'.owner = s.owner := funext hproc
  exact {
    threads := by
      rw [hthreads, huse, howner]
      exact hf.threads
    children := by
      rw [hchildren, huse]
      exact hf.children
    owner := by
      simpa only [hproc, huse] using hf.owner
    parent := by
      simpa only [huse] using hf.parent
    fresh := by
      simpa only [huse] using hf.fresh
    alive := by
      simpa only [hmain, hpar] using hf.alive
    exiting t q ht hq := by
      rw [hproc] at hq
      rw [hpar, hmain]
      exact hf.exiting t q (hexit t ht) hq
    unique t t' q ht ht' hq hq' := by
      rw [hproc] at hq hq'
      exact hf.unique t t' q (hexit t ht) (hexit t' ht') hq hq'
  }

/-! ## creation -/

theorem FamilyInv.taskCreated {s : TaskStruct} {f : ProcPtr → Option ProcPtr} (hf : FamilyInv s f) {i : TaskPtr}
    (hfree : (s.tasks i).pProcess = none) {p : ProcPtr} (hp : s.InUse p) (stack stacksize : Nat)
    (priority : TaskPriority) : FamilyInv (created s i stack stacksize p priority) f := by
  have howner : (created s i stack stacksize p priority).owner = Function.update s.owner i (some p) := by
    funext j
    by_cases e : j = i
    · rw [e, Function.update_self, TaskStruct.owner, created_self]
      rfl
    · rw [Function.update_of_ne e, TaskStruct.owner, created_ne e]
      rfl
  have hexit : ∀ j, ((created s i stack stacksize p priority).tasks j).Exiting → j ≠ i ∧ (s.tasks j).Exiting := by
    intro j hj
    have hne : j ≠ i := by
      rintro rfl
      rw [created_self] at hj
      cases hj.2
    exact ⟨hne, created_ne hne ▸ hj⟩
  exact { hf with
    threads := by
      rw [howner]
      exact hf.threads.push hp fun l _ h => by
        rw [TaskStruct.owner, hfree] at h
        cases h
    owner j q hq := by
      by_cases e : j = i
      · rw [e, created_self] at hq
        exact Option.some.inj hq ▸ hp
      · rw [created_ne e] at hq
        exact hf.owner j q hq
    exiting j q hj hq := by
      obtain ⟨e, hj⟩ := hexit j hj
      rw [created_ne e] at hq
      exact hf.exiting j q hj hq
    unique j j' q hj hj' hq hq' := by
      obtain ⟨e, hj⟩ := hexit j hj
      obtain ⟨e', hj'⟩ := hexit j' hj'
      rw [created_ne e] at hq
      rw [created_ne e'] at hq'
      exact hf.unique j j' q hj hj' hq hq'
  }

/-- a new process, before its main thread is created in it -/
theorem FamilyInv.processCreated {s s' : TaskStruct} {f : ProcPtr → Option ProcPtr} (hf : FamilyInv s f)
    {q parent : ProcPtr} (hq : ¬ s.InUse q) (hp : s.InUse parent) {np : Process} (hdir : np.pageDirectory ≠ 0)
    (hnp : np.pParentProcess = some parent) (htasks : s'.tasks = s.tasks)
    (hprocs : s'.processes = Function.update s.processes q np)
    (hthreads : s'.threads = ckLinkedListInit s.threads q)
    (hchildren : s'.children = ckLinkedListPushBack_lockfree (ckLinkedListInit s.children q) parent q) :
    FamilyInv s' (Function.update f q (some parent)) := by
  have hself : s'.processes q = np := by rw [hprocs, Function.update_self]
  have hother : ∀ p, p ≠ q → s'.processes p = s.processes p := fun p e => by rw [hprocs, Function.update_of_ne e]
  have huse : ∀ p, s'.InUse p ↔ s.InUse p ∨ p = q := by
    intro p
    by_cases e : p = q
    · rw [e, TaskStruct.InUse, hself]
      exact ⟨fun _ => Or.inr rfl, fun _ => hdir⟩
    · rw [TaskStruct.InUse, hother p e]
      exact ⟨Or.inl, fun h => h.resolve_right e⟩
  have howner : ∀ t p, (s.tasks t).pProcess = some p → p ≠ q := fun t p h e => hq (e ▸ hf.owner t p h)
  exact {
    threads := by
      rw [hthreads]
      have := (hf.threads.init (l := q) fun t h => howner t q h rfl).mono fun p hp => (huse p).mp hp
      exact this.congr fun l _ t => by rw [TaskStruct.owner, TaskStruct.owner, htasks]
    children := by
      rw [hchildren]
      have := (hf.children.init (l := q) fun p h => hq (hf.parent p q h)).push (l := parent) (n := q) (Or.inl hp) fun l _ h => by
        rw [hf.fresh q hq] at h
        cases h
      exact this.mono fun p hp => (huse p).mp hp
    owner t p h := by
      rw [htasks] at h
      exact (huse p).mpr (Or.inl (hf.owner t p h))
    parent r p h := by
      by_cases e : r = q
      · rw [e, Function.update_self] at h
        exact (huse p).mpr (Or.inl (Option.some.inj h ▸ hp))
      · rw [Function.update_of_ne e] at h
        exact (huse p).mpr (Or.inl (hf.parent r p h))
    fresh p h := by
      have hne : p ≠ q := fun e => h ((huse p).mpr (Or.inr e))
      rw [Function.update_of_ne hne]
      exact hf.fresh p fun hp => h ((huse p).mpr (Or.inl hp))
    alive p h := by
      by_cases e : p = q
      · rw [e, Function.update_self, hself, hnp]
      · rw [Function.update_of_ne e, hother p e]
        rw [hother p e] at h
        exact hf.alive p h
    exiting t p ht h := by
      rw [htasks] at ht h
      have hne := howner t p h
      rw [Function.update_of_ne hne, hother p hne]
      exact hf.exiting t p ht h
    unique t t' p ht ht' h h' := by
      rw [htasks] at ht ht' h h'
      exact hf.unique t t' p ht ht' h h'
  }

/-! ## termination -/

/-- the process `p` is to be cleaned up with the task `u`, and with no other -/
def Orphaning (s : TaskStruct) (f : ProcPtr → Option ProcPtr) (u : TaskPtr) (p : ProcPtr) : Prop :=
  f p = (s.processes p).pParentProcess ∧ (s.processes p).pMainThread = none ∧
    ∀ t, t ≠ u → (s.tasks t).Exiting → (s.tasks t).pProcess ≠ some p

theorem Departed.exiting {s s₁ : TaskStruct} {u : TaskPtr} {r : Option ProcPtr} (hd : Departed s u r s₁)
    (hu : (s.tasks u).Live) {j : TaskPtr} (hj : (s₁.tasks j).Exiting) : j ≠ u ∧ (s.tasks j).Exiting := by
  obtain ⟨hsel, hflag, _⟩ := hd.fields j
  have hj' : (s.tasks j).Exiting := by
    unfold Task.Exiting at hj ⊢
    rw [hsel, hflag] at hj
    refine ⟨hj.1, ?_⟩
    by_cases hw : (s.tasks j).waitObj = some u
    · rw [if_pos hw] at hj
      cases hj.2
    · rw [if_neg hw] at hj
      exact hj.2
  exact ⟨fun e => hu.2 (e ▸ hj'.2), hj'⟩

section

variable {s s₁ : TaskStruct} {f : ProcPtr → Option ProcPtr} (hf : FamilyInv s f) {u : TaskPtr} {p : ProcPtr}
  (hu : (s.tasks u).Live) (hp : (s.tasks u).pProcess = some p)
include hf hu hp

/-- a task leaves the process that it is not the main thread of -/
theorem FamilyInv.departed_thread (hd : Departed s u none s₁) (hprocs : s₁.processes = s.processes)
    (hthreads : s₁.threads = ckLinkedListErase s.threads p u) : FamilyInv s₁ f := by
  have hfields := hd.fields
  have hexit := fun j => hd.exiting hu (j := j)
  have huse : s₁.InUse = s.InUse := by
    unfold TaskStruct.InUse
    rw [hprocs]
  have hproc : ∀ j q, (s₁.tasks j).pProcess = some q → (s.tasks j).pProcess = some q := by
    intro j q hj
    rw [(hfields j).2.2.2.1] at hj
    by_cases e : j = u ∧ (none : Option ProcPtr) = none
    · rw [if_pos e] at hj
      cases hj
    · rwa [if_neg e] at hj
  exact {
    threads := by
      rw [hthreads, huse]
      refine (hf.threads.erase (hf.owner u p hp) hp).congr fun l _ j => ?_
      rw [TaskStruct.owner, (hfields j).2.2.2.1]
      by_cases e : j = u
      · rw [e, Function.update_self, if_pos ⟨rfl, rfl⟩]
      · rw [Function.update_of_ne e, if_neg fun h => e h.1]
        rfl
    children := by
      rw [hd.children, huse]
      exact hf.children
    owner := fun j q hj => huse ▸ hf.owner j q (hproc j q hj)
    parent := fun q q' hq => huse ▸ hf.parent q q' hq
    fresh := fun q hq => hf.fresh q (huse ▸ hq)
    alive q hq := by
      rw [hprocs] at hq ⊢
      exact hf.alive q hq
    exiting j q hj hq := by
      rw [hprocs]
      exact hf.exiting j q (hexit j hj).2 (hproc j q hq)
    unique := fun j j' q hj hj' hq hq' =>
      hf.unique j j' q (hexit j hj).2 (hexit j' hj').2 (hproc j q hq) (hproc j' q hq')
  }

/-- the main thread of a process departs, and the process is to be cleaned up with it -/
theorem FamilyInv.departed_main (hd : Departed s u (some p) s₁) (hm : (s.processes p).pMainThread = some u)
    (hprocs : s₁.processes = Function.update s.processes p { s.processes p with pMainThread := none })
    (hthreads : s₁.threads = s.threads) :
    FamilyInv s₁ f ∧ (s₁.tasks u).pProcess = some p ∧ Orphaning s₁ f u p := by
  have hexit := fun j => hd.exiting hu (j := j)
  have hproc : ∀ j, (s₁.tasks j).pProcess = (s.tasks j).pProcess := by
    intro j
    rw [(hd.fields j).2.2.2.1, if_neg fun h => Option.some_ne_none p h.2]
  have hmain : ∀ q, q ≠ p → s₁.processes q = s.processes q := fun q e => by
    rw [hprocs, Function.update_of_ne e]
  have hmainp : s₁.processes p = { s.processes p with pMainThread := none } := by
    rw [hprocs, Function.update_self]
  have hpar : ∀ q, (s₁.processes q).pParentProcess = (s.processes q).pParentProcess ∧
      (s₁.processes q).pageDirectory = (s.processes q).pageDirectory := by
    intro q
    by_cases e : q = p
    · rw [e, hmainp]
      exact ⟨rfl, rfl⟩
    · rw [hmain q e]
      exact ⟨rfl, rfl⟩
  have huse : s₁.InUse = s.InUse := funext fun q => by rw [TaskStruct.InUse, TaskStruct.InUse, (hpar q).2]
  -- the process still has its main thread, so no task of it is waiting to be freed
  have hnone : ∀ j, (s.tasks j).Exiting → (s.tasks j).pProcess ≠ some p := by
    intro j hj hq
    have := (hf.exiting j p hj hq).2
    rw [hm] at this
    cases this
  have howner : s₁.owner = s.owner := funext hproc
  have hfam : FamilyInv s₁ f := by
    exact {
      threads := by
        rw [hthreads, huse, howner]
        exact hf.threads
      children := by
        rw [hd.children, huse]
        exact hf.children
      owner := fun j q hj => huse ▸ hf.owner j q (hproc j ▸ hj)
      parent := fun q q' hq => huse ▸ hf.parent q q' hq
      fresh := fun q hq => hf.fresh q (huse ▸ hq)
      alive q hq := by
        by_cases e : q = p
        · rw [e, hmainp] at hq
          exact absurd rfl hq
        · rw [hmain q e] at hq ⊢
          exact hf.alive q hq
      exiting j q hj hq := by
        rw [hproc] at hq
        have e : q ≠ p := fun e => hnone j (hexit j hj).2 (e ▸ hq)
        rw [hmain q e]
        exact hf.exiting j q (hexit j hj).2 hq
      unique j j' q hj hj' hq hq' := by
        rw [hproc] at hq hq'
        exact hf.unique j j' q (hexit j hj).2 (hexit j' hj').2 hq hq'
    }
  refine ⟨hfam, (hproc u).trans hp, ?_, ?_, fun j _ hj => ?_⟩
  · rw [(hpar p).1]
    exact hf.alive p (hm.trans_ne (Option.some_ne_none u))
  · rw [hmainp]
  · rw [hproc]
    exact hnone j (hexit j hj).2

end

theorem FamilyInv.departed {s s₁ : TaskStruct} {f : ProcPtr → Option ProcPtr} (hf : FamilyInv s f) {u : TaskPtr}
    {r : Option ProcPtr} (hu : (s.tasks u).Live) (hd : Departed s u r s₁) :
    FamilyInv s₁ f ∧ (s₁.tasks u).pProcess = r ∧ ∀ p, r = some p → Orphaning s₁ f u p := by
  obtain ⟨p, hp, ⟨rfl, _, hprocs, hthreads⟩ | ⟨rfl, hm, hprocs, hthreads⟩⟩ := hd.process
  · refine ⟨hf.departed_thread hu hp hd hprocs hthreads, ?_, fun q h => by cases h⟩
    rw [(hd.fields u).2.2.2.1, if_pos ⟨rfl, rfl⟩]
  · obtain ⟨hf₁, hp₁, hor⟩ := hf.departed_main hu hp hd hm hprocs hthreads
    exact ⟨hf₁, hp₁, fun q h => Option.some.inj h ▸ hor⟩

/-- the current task has ended: it is the only one to wait for its process -/
theorem FamilyInv.exited {s s' : TaskStruct} {f : ProcPtr → Option ProcPtr} (hf : FamilyInv s f) {u : TaskPtr}
    {hw : Bool} (hu : (s.tasks u).flag ≠ .ready) (hor : ∀ p, (s.tasks u).pProcess = some p → Orphaning s f u p)
    (he : Exited s u hw s') : FamilyInv s' f := by
  obtain ⟨flag, cpu, htasks, hflag⟩ := he.tasks hu
  obtain ⟨t, _, _, hs⟩ := he
  obtain ⟨cpu', hprocs⟩ := hs.processes
  have hprocs' : s'.processes = fun p => { s.processes p with usedCpuTime := cpu' p } := hprocs
  have hproc : ∀ j, (s'.tasks j).pProcess = (s.tasks j).pProcess := fun j => by rw [htasks]
  have hmain : ∀ p, (s'.processes p).pMainThread = (s.processes p).pMainThread := fun p => by rw [hprocs']
  have hpar : ∀ p, (s'.processes p).pParentProcess = (s.processes p).pParentProcess := fun p => by rw [hprocs']
  have huse : s'.InUse = s.InUse := by
    funext p
    rw [TaskStruct.InUse, hprocs']
    rfl
  have howner : s'.owner = s.owner := funext hproc
  have hexit : ∀ j, (s'.tasks j).Exiting → j = u ∨ (s.tasks j).Exiting := by
    intro j hj
    unfold Task.Exiting at hj ⊢
    rw [htasks] at hj
    exact ((hflag j).mp hj.2).imp id fun h => ⟨hj.1, h⟩
  exact {
    threads := by
      rw [show s'.threads = s.threads from hs.threads, huse, howner]
      exact hf.threads
    children := by
      rw [show s'.children = s.children from hs.children, huse]
      exact hf.children
    owner := fun j q hj => huse ▸ hf.owner j q (hproc j ▸ hj)
    parent := fun q q' hq => huse ▸ hf.parent q q' hq
    fresh := fun q hq => hf.fresh q (huse ▸ hq)
    alive q hq := by
      rw [hmain] at hq
      rw [hpar]
      exact hf.alive q hq
    exiting j q hj hq := by
      rw [hproc] at hq
      rw [hpar, hmain]
      rcases hexit j hj with rfl | hj
      · exact ⟨(hor q hq).1, (hor q hq).2.1⟩
      · exact hf.exiting j q hj hq
    unique j j' q hj hj' hq hq' := by
      rw [hproc] at hq hq'
      rcases hexit j hj with e | hj
      · rcases hexit j' hj' with e' | hj'
        · rw [e, e']
        · by_contra hne
          exact (hor q (e ▸ hq)).2.2 j' (fun h => hne (e.trans h.symm)) hj' hq'
      · rcases hexit j' hj' with e' | hj'
        · by_contra hne
          exact (hor q (e' ▸ hq')).2.2 j (fun h => hne (h.trans e'.symm)) hj hq
        · exact hf.unique j j' q hj hj' hq hq'
  }

/-- a slot is freed, and the process that goes with it is taken from its parent -/
theorem FamilyInv.freed {s s' : TaskStruct} {f : ProcPtr → Option ProcPtr} (hf : FamilyInv s f) {u : TaskPtr}
    {r : Option ProcPtr} (hor : ∀ p, r = some p → Orphaning s f u p)
    (hproc : ∀ t, (s'.tasks t).pProcess = (s.tasks t).pProcess)
    (hexit : ∀ t, (s'.tasks t).Exiting → t ≠ u ∧ (s.tasks t).Exiting) (hprocs : s'.processes = s.processes)
    (hthreads : s'.threads = s.threads) (hchildren : s'.children = orphaned s r) : ∃ f', FamilyInv s' f' := by
  cases r with
  | none =>
    exact ⟨f, hf.frame hthreads hchildren hproc (fun t ht => (hexit t ht).2) fun p => by rw [hprocs]⟩
  | some p =>
    obtain ⟨hfp, hm, hno⟩ := hor p rfl
    have huse : s'.InUse = s.InUse := by
      unfold TaskStruct.InUse
      rw [hprocs]
    have howner : s'.owner = s.owner := funext hproc
    refine ⟨Function.update f p none, ?_⟩
    exact {
      threads := by
        rw [hthreads, huse, howner]
        exact hf.threads
      children := by
        rw [hchildren, huse]
        unfold orphaned
        simp only []
        cases hpar : (s.processes p).pParentProcess with
        | none =>
          rw [hpar] at hfp
          have : Function.update f p none = f := (congrArg (Function.update f p) hfp.symm).trans (Function.update_eq_self p f)
          rw [this]
          exact hf.children
        | some q =>
          rw [hpar] at hfp
          exact hf.children.erase (hf.parent p q hfp) hfp
      owner := fun t q ht => huse ▸ hf.owner t q (hproc t ▸ ht)
      parent q q' hq := by
        by_cases e : q = p
        · rw [e, Function.update_self] at hq
          cases hq
        · rw [Function.update_of_ne e] at hq
          exact huse ▸ hf.parent q q' hq
      fresh q hq := by
        by_cases e : q = p
        · rw [e, Function.update_self]
        · rw [Function.update_of_ne e]
          exact hf.fresh q (huse ▸ hq)
      alive q hq := by
        rw [hprocs] at hq ⊢
        have e : q ≠ p := fun e => hq (e ▸ hm)
        rw [Function.update_of_ne e]
        exact hf.alive q hq
      exiting t q ht hq := by
        obtain ⟨hne, ht⟩ := hexit t ht
        rw [hproc] at hq
        rw [hprocs]
        have e : q ≠ p := fun e => hno t hne ht (e ▸ hq)
        rw [Function.update_of_ne e]
        exact hf.exiting t q ht hq
      unique t t' q ht ht' hq hq' := by
        rw [hproc] at hq hq'
        exact hf.unique t t' q (hexit t ht).2 (hexit t' ht').2 hq hq'
    }

/-- a slot that is given back, and the process it leaves -/
theorem FamilyInv.cleared {s s' : TaskStruct} {f : ProcPtr → Option ProcPtr} (hf : FamilyInv s f) {v : TaskPtr}
    {r : Option ProcPtr} (hor : ∀ p, r = some p → Orphaning s f v p)
    (hself : (s'.tasks v).pProcess = (s.tasks v).pProcess) (hsel : (s'.tasks v).selector = 0)
    (hother : ∀ j, j ≠ v → s'.tasks j = s.tasks j) (hprocs : s'.processes = s.processes)
    (hthreads : s'.threads = s.threads) (hchildren : s'.children = orphaned s r) : ∃ f', FamilyInv s' f' := by
  refine hf.freed hor (fun j => ?_) (fun j hj => ?_) hprocs hthreads hchildren
  · by_cases e : j = v
    · rw [e, hself]
    · rw [hother j e]
  · by_cases e : j = v
    · rw [e] at hj
      exact absurd hsel hj.1
    · exact ⟨e, hother j e ▸ hj⟩

/-! ## runs -/

/-- no creation takes the slot of a task that was the main thread of a process -/
def Op.FreshSlot (s : TaskStruct) : Op → Prop
  | .taskCreate .. => ∀ i ∈ freeTask s, (s.tasks i).pProcess = none
  | .processCreate .. => ∀ i ∈ freeTask s, (s.tasks i).pProcess = none
  | _ => True

/-- a process is created with a page directory; `NULL` marks a slot that is not in use -/
def Op.HasDirectory : Op → Prop
  | .processCreate _ _ _ pageDirectory .. => pageDirectory ≠ 0
  | _ => True

theorem FamilyInv.switched {s s' : TaskStruct} {f : ProcPtr → Option ProcPtr} (hf : FamilyInv s f) {t : TaskPtr}
    {p : TaskPriority} {hw : Bool} (ht : s.place t = some (.ready p)) (hs : Switched s t hw s') : FamilyInv s' f := by
  obtain ⟨cpu, htasks⟩ := hs.tasks
  obtain ⟨cpu', hprocs⟩ := hs.processes
  refine hf.frame hs.threads hs.children (fun j => by rw [htasks]) (fun j hj => ?_) fun q => by rw [hprocs]; rfl
  obtain ⟨hsel, hexit⟩ := hs.exit_iff ht j
  exact ⟨hsel ▸ hj.1, hexit.mp hj.2⟩

/-- **A call keeps the lists of the processes well formed** if it takes no slot of a main thread. -/
theorem FamilyInv.step {finit : FpuContext} {hw : Bool} {s s' : TaskStruct} {op : Op}
    {f : ProcPtr → Option ProcPtr} (hi : TaskInv s) (hf : FamilyInv s f) (hs : Step finit hw s op s')
    (hfresh : op.FreshSlot s) (hdir : op.HasDirectory) : ∃ f', FamilyInv s' f' := by
  have hslot := hi.1.toSlotInv
  cases hs with
  | untouched h =>
    refine ⟨f, hf.frame h.threads h.children (fun j => by rw [h.tasks]) (fun j hj => ?_) fun q => by rw [h.processes]⟩
    rwa [h.tasks] at hj
  | @taskCreated stack stacksize processId priority i p hfree hp =>
    exact ⟨f, hf.taskCreated (hfresh i hfree) hp.1 stack stacksize priority⟩
  | @processCreated stack stacksize priority pageDirectory pageDirSize cr3 procData parentProcessId i parent q hfree
      hq hp =>
    let np := newProcess s q parent i pageDirectory pageDirSize cr3 procData
    let s₁ : TaskStruct := { s with
      threads := ckLinkedListInit s.threads q
      children := ckLinkedListPushBack_lockfree (ckLinkedListInit s.children q) parent q
      processIdMask := u32 (s.processIdMask + processIdMaskUnit)
      processes := Function.update s.processes q np }
    have hnuse : ¬ s.InUse q := not_not_intro (freeProcess_some hq)
    have hf₁ : FamilyInv s₁ (Function.update f q (some parent)) :=
      hf.processCreated hnuse hp.1 (show np.pageDirectory ≠ 0 from hdir) rfl rfl rfl rfl rfl
    have huse : s₁.InUse q := by
      show (Function.update s.processes q np q).pageDirectory ≠ 0
      rw [Function.update_self]
      exact hdir
    exact ⟨_, hf₁.taskCreated (hfresh i hfree) huse stack stacksize priority⟩
  | switched ht h => exact ⟨f, hf.switched ht h⟩
  | @joined _ v t p s' hv ht h =>
    have hf₁ : FamilyInv (Clubcos.joined s v) f := by
      refine hf.frame rfl rfl (fun j => ?_) (fun j hj => ?_) fun q => rfl
      · by_cases e : j = s.pNow
        · rw [e, joined_self]
        · rw [joined_ne e]
      · by_cases e : j = s.pNow
        · rw [e, joined_self] at hj
          cases hj.2
        · exact joined_ne e ▸ hj
    exact ⟨f, hf₁.switched ht h⟩
  | @exited _ v r s₁ s' hv hd hnow hex =>
    obtain ⟨hf₁, hr, hor⟩ := hf.departed hv hd
    have hready := hd.not_ready hslot (hnow ▸ hi.2.2 : (s.tasks v).flag = .running)
    exact ⟨f, hf₁.exited hready (fun p hp => hor p (hr.symm.trans hp)) hex⟩
  | @killed _ v r s₁ h h' g hv hd hnow =>
    obtain ⟨hf₁, hr, hor⟩ := hf.departed hv hd
    exact hf₁.cleared hor (by rw [killed_self]) (by rw [killed_self]) (fun j e => killed_ne e) rfl rfl rfl
  | @buried _ v g hv =>
    have hex : (s.tasks v).Exiting := exit_of_place hv
    have hor : ∀ p, (s.tasks v).pProcess = some p → Orphaning s f v p := by
      intro p hp
      obtain ⟨h1, h2⟩ := hf.exiting v p hex hp
      exact ⟨h1, h2, fun j hne hj hjp => hne (hf.unique j v p hj hex hjp hp)⟩
    exact hf.cleared hor (by rw [buried_self]) (by rw [buried_self]) (fun j e => buried_ne e) rfl rfl rfl
  | @fpu g =>
    obtain ⟨ctx, used, ts, fpu, last, e⟩ := fpuInstruction_eq finit g s
    rw [e]
    exact ⟨f, hf.frame rfl rfl (fun _ => rfl) (fun _ h => h) fun _ => rfl⟩

section

variable (fpu : FpuContext) (mem : Nat → Nat)

theorem boot_proc (j : TaskPtr) : ((ckTaskStructInitialize fpu mem).tasks j).pProcess =
    if j = kernelTask ∨ j = idleTask then some kernelProcess else none := by
  obtain ⟨_, ⟨e, _, _, hp⟩ | ⟨e, _, _, hp, _⟩ | ⟨e1, e0, _, hp⟩⟩ := boot_slot fpu mem j
  · rw [hp, if_pos (Or.inl e)]
  · rw [hp, if_pos (Or.inr e)]
  · rw [hp, if_neg fun h => h.elim e0 e1]

theorem boot_exiting (j : TaskPtr) : ¬ ((ckTaskStructInitialize fpu mem).tasks j).Exiting := by
  rintro ⟨hs, hf⟩
  obtain ⟨_, ⟨_, _, h, _⟩ | ⟨_, _, h, _⟩ | ⟨_, _, h, _⟩⟩ := boot_slot fpu mem j
  · rw [h] at hf
    cases hf
  · rw [h] at hf
    cases hf
  · exact hs h

theorem boot_inUse {p : ProcPtr} (hp : (ckTaskStructInitialize fpu mem).InUse p) : p = kernelProcess := by
  by_contra e
  refine hp ?_
  show (Function.update (TaskStruct.zero fpu mem).processes kernelProcess _ p : Process).pageDirectory = 0
  rw [Function.update_of_ne e]
  rfl

theorem boot_threads : Located (ckTaskStructInitialize fpu mem).threads (ckTaskStructInitialize fpu mem).InUse
    (ckTaskStructInitialize fpu mem).owner := by
  have hno : ∀ (n : TaskPtr) (l : ProcPtr), (none : Option ProcPtr) ≠ some l := fun n l h => by cases h
  have h1 := ((Located.none Heap.zero fun _ : TaskPtr => none).init fun t => hno t kernelProcess).push
    (l := kernelProcess) (n := kernelTask) (Or.inr rfl) fun l _ => hno kernelTask l
  have h2 := h1.push (l := kernelProcess) (n := idleTask) (Or.inr rfl) fun l _ => by
    rw [Function.update_of_ne (by decide : idleTask ≠ kernelTask)]
    exact hno idleTask l
  refine (h2.mono fun p hp => Or.inr (boot_inUse fpu mem hp)).congr fun l _ j => ?_
  rw [TaskStruct.owner, boot_proc]
  by_cases e1 : j = idleTask
  · rw [e1, Function.update_self, if_pos (Or.inr rfl)]
  · rw [Function.update_of_ne e1]
    by_cases e0 : j = kernelTask
    · rw [e0, Function.update_self, if_pos (Or.inl rfl)]
    · rw [Function.update_of_ne e0, if_neg fun h => h.elim e0 e1]

theorem boot_family : FamilyInv (ckTaskStructInitialize fpu mem) fun _ => none := by
  refine ⟨boot_threads fpu mem, ?_, fun t p h => ?_, fun q p h => (by cases h), fun _ _ => rfl, fun q hq => ?_,
    fun t q ht => absurd ht (boot_exiting fpu mem t), fun t t' q ht => absurd ht (boot_exiting fpu mem t)⟩
  · have h1 : Located (ckLinkedListInit Heap.zero kernelProcess) _ fun _ : ProcPtr => none :=
      (Located.none Heap.zero _).init fun t h => by cases h
    exact h1.mono fun p hp => Or.inr (boot_inUse fpu mem hp)
  · rw [boot_proc] at h
    split at h
    · exact Option.some.inj h ▸ (boot_inv fpu mem).1.dir0
    · cases h
  · obtain ⟨m, hm⟩ := Option.ne_none_iff_exists'.mp hq
    rw [(boot_main fpu mem hm).1]
    rfl

end

/-! ## all the lists -/

/-- the lists of task.c, written out: who runs, which nodes each list holds, and that `size` counts them -/
structure Listed (s : TaskStruct) : Prop where
  running : ∀ t, (s.tasks t).selector ≠ 0 ∧ (s.tasks t).flag = .running ↔ t = s.pNow
  nodes : ∀ l, ∃ ns, Spelled s.nodes l ns ∧ ∀ t, t ∈ ns ↔ s.place t = some l
  waits : ∀ u, (s.tasks u).Live → ∃ ns, Spelled s.waits u ns ∧ ∀ t, t ∈ ns ↔ (s.tasks t).waitObj = some u
  waitObj : ∀ t u, (s.tasks t).waitObj = some u →
    (s.tasks u).Live ∧ (s.tasks t).selector ≠ 0 ∧ (s.tasks t).flag = .wait
  threads : ∀ p, s.InUse p → ∃ ns, Spelled s.threads p ns ∧ ∀ t, t ∈ ns ↔ (s.tasks t).pProcess = some p
  children : ∀ p, s.InUse p → ∃ ns, Spelled s.children p ns

theorem maxProcess_card : Fintype.card ProcPtr < 2^32 := by
  rw [Fintype.card_fin]
  decide

theorem TaskInv.listed {s : TaskStruct} (hi : TaskInv s) {f : ProcPtr → Option ProcPtr} (hf : FamilyInv s f) :
    Listed s where
  running t := ⟨fun h => hi.1.single t h.1 h.2, fun e => e ▸ hi.2⟩
  nodes l := hi.1.places.spelled maxTask_card trivial
  waits u hu := hi.1.waits.spelled maxTask_card hu
  waitObj := hi.1.waitObj
  threads p hp := hf.threads.spelled maxTask_card hp
  children p hp := by
    obtain ⟨ns, hns, _⟩ := hf.children.spelled maxProcess_card hp
    exact ⟨ns, hns⟩

/-- the calls that keep every list well formed -/
def Op.Orderly (s : TaskStruct) (op : Op) : Prop := op.Proper s ∧ op.FreshSlot s ∧ op.HasDirectory

theorem Reach.family {finit : FpuContext} {s : TaskStruct} (h : Reach finit Op.Orderly s) :
    TaskInv s ∧ ∃ f, FamilyInv s f := by
  induction h with
  | boot fpu mem => exact ⟨boot_inv fpu mem, _, boot_family fpu mem⟩
  | call _ ho e ih =>
    obtain ⟨hi, f, hf⟩ := ih
    obtain ⟨hi', hs⟩ := ho.1.step hi e
    exact ⟨hi', hf.step hi hs ho.2.1 ho.2.2⟩

/-- **The lists of task.c are well formed in every state of a run** in which no creation takes the slot of
a main thread, and every call that is made there comes back: no `assert` fails. -/
theorem lists_good {finit : FpuContext} {s : TaskStruct} (h : Reach finit Op.Orderly s) :
    Listed s ∧ ∀ op hw, op.Orderly s → ∃ s', exec finit hw s op = some s' := by
  obtain ⟨hi, f, hf⟩ := h.family
  refine ⟨hi.listed hf, fun op hw ho => ?_⟩
  obtain ⟨s', e, _⟩ := exec_spec finit hw hi ho.1.1 ho.1.2
  exact ⟨s', e⟩

instance (op : Op) : Decidable op.HasDirectory :=
  match op with
  | .processCreate _ _ _ pageDirectory .. => inferInstanceAs (Decidable (pageDirectory ≠ 0))
  | .taskCreate .. | .schedule | .timerInt | .taskJoin _ | .processJoin _ | .taskTerminate _ | .processTerminate _
  | .taskResume _ | .idleReap | .fpu _ | .write .. => instDecidableTrue

instance (s : TaskStruct) (op : Op) : Decidable (op.FreshSlot s) :=
  match op with
  | .taskCreate .. | .processCreate .. => Option.decidableForallMem (freeTask s)
  | .schedule | .timerInt | .taskJoin _ | .processJoin _ | .taskTerminate _ | .processTerminate _ | .taskResume _
  | .idleReap | .fpu _ | .write .. => instDecidableTrue

instance (s : TaskStruct) (op : Op) : Decidable (op.Orderly s) := inferInstanceAs (Decidable (_ ∧ _ ∧ _))

/-- a process with a second thread; the second thread joins the kernel task and is terminated there -/
def familyRun : List Op := [.processCreate 0 0 .realtime 0x500000 0 0 ⟨0⟩ 0, .taskCreate 0 0 1025 .realtime,
  .schedule, .taskJoin 0, .taskTerminate 8195, .timerInt]

theorem familyRun_some : (execAll 0 Op.Orderly familyRun bootState).isSome := by decide +kernel

def familyState : TaskStruct := (execAll 0 Op.Orderly familyRun bootState).get familyRun_some

theorem lists_good_familyRun : (∀ t, (familyState.tasks t).selector ≠ 0 ∧ (familyState.tasks t).flag = .running ↔
      t = familyState.pNow) ∧ familyState.place 2 = some .wait ∧
    ∃ s', exec 0 true familyState (.taskTerminate 4098) = some s' := by
  have hreach : Reach 0 Op.Orderly familyState :=
    execAll_reach (.boot 0 fun _ => 0) (Option.some_get familyRun_some).symm
  have h := lists_good hreach
  exact ⟨h.1.running, by decide +kernel, h.2 (.taskTerminate 4098) true (by decide +kernel)⟩

/-! ## the slot of a main thread -/

/-- the calls of a run that may use the slot of a main thread again -/
def Op.Reusing (s : TaskStruct) (op : Op) : Prop := op.Proper s ∧ op.HasDirectory

instance (s : TaskStruct) (op : Op) : Decidable (op.Reusing s) := inferInstanceAs (Decidable (_ ∧ _))

/-- the main thread of a process with two threads ends, the kernel process gets a thread in its slot,
and the second thread ends -/
def reuseRun : List Op := [.processCreate 0 0 .normal 0x500000 0 0 ⟨0⟩ 0, .taskCreate 0 0 1025 .normal,
  .taskTerminate 4098, .taskCreate 0 0 0 .normal, .taskTerminate 8195]

theorem reuseRun_some : (execAll 0 Op.Reusing reuseRun bootState).isSome := by decide +kernel

def reuseState : TaskStruct := (execAll 0 Op.Reusing reuseRun bootState).get reuseRun_some

/-- **A slot of a main thread that is used again** stays linked in the old `ThreadList`; the next
`ckLinkedListErase` there cuts the `ThreadList` of the kernel process. -/
theorem main_slot_reused : Reach 0 Op.Reusing reuseState ∧ reuseState.InUse kernelProcess ∧
    ¬ ∃ ns, Spelled reuseState.threads kernelProcess ns := by
  refine ⟨execAll_reach (.boot 0 fun _ => 0) (Option.some_get reuseRun_some).symm, ?_, ?_⟩
  · show (reuseState.processes kernelProcess).pageDirectory ≠ 0
    decide +kernel
  · rintro ⟨ns, hns⟩
    have hprev : reuseState.threads.links.prev (.dummy kernelProcess) = .node 2 := by decide +kernel
    have hnext : reuseState.threads.links.next (.node 2) ≠ .dummy kernelProcess := by decide +kernel
    exact hnext (hprev ▸ hns.ring.next_prev List.mem_cons_self)

end Clubcos
