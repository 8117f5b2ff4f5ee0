import Mathlib.Algebra.BigOperators.Group.Finset.Piecewise
import Mathlib.Algebra.Order.BigOperators.Group.Finset
import Clubcos.Sync.Mutex

/-!
# coshell_cmd.c: the mutex test `testmutex`

A number of tasks each lock the mutex, count one up in several steps, and unlock it again, round after round.

* `TestStep`          one step of `testmutex`: an access to the mutex or to `count`;
* `TestRun.mutex`     its runs are runs of tasks that only touch `count` while they hold the mutex;
* `testmutex_counts`  **no round is lost**, at every interleaving: at the end `count` is the number of all rounds.
-/

set_option linter.unusedVariables false
set_option linter.unusedSectionVars false

namespace Clubcos
open Word Threads

/-- `tmp = count + 2`, `tmp -= 3`, `count = tmp + 2` -/
def increaseCount (v : Nat) : Nat := u32 (sub32 (u32 (v + 2)) 3 + 2)

/-- where a task is in its round `i` -/
inductive TestTask where
  | loop (i : Nat)
  | locking (i : Nat) (pc : Pc)
  | load (i : Nat)
  | store (i : Nat) (v : Nat)
  | unlock (i : Nat)
  | unlocking (i : Nat) (pc : Pc)

section
variable {T : Type} (id : T → Nat) (rounds : Nat)

/-- A task that comes to the head of the loop with `i = rounds` is through and leaves. -/
inductive TestStep (t : T) (s : Guarded Nat) : TestTask → MutexEvent Nat → Guarded Nat → TestTask → Prop
  | lock {i} : i < rounds → TestStep t s (.loop i) .lock s (.locking i .lockCas)
  | lockAccess {i pc m pc'} : ckRecursiveMutex (id t) s.mutex pc = (m, .inl pc') →
      TestStep t s (.locking i pc) .access { s with mutex := m } (.locking i pc')
  | lockRet {i pc m r} : ckRecursiveMutex (id t) s.mutex pc = (m, .inr r) →
      TestStep t s (.locking i pc) (.ret r) { s with mutex := m } (.load i)
  | load {i} : TestStep t s (.load i) .load s (.store i s.count)
  | store {i v} : TestStep t s (.store i v) (.store increaseCount) { s with count := increaseCount v } (.unlock i)
  | unlock {i} : TestStep t s (.unlock i) .unlock s (.unlocking i .unlockLocked)
  | unlockAccess {i pc m pc'} : ckRecursiveMutex (id t) s.mutex pc = (m, .inl pc') →
      TestStep t s (.unlocking i pc) .access { s with mutex := m } (.unlocking i pc')
  | unlockRet {i pc m r} : ckRecursiveMutex (id t) s.mutex pc = (m, .inr r) →
      TestStep t s (.unlocking i pc) (.ret r) { s with mutex := m } (.loop (i + 1))

def testStart : Config T (Guarded Nat) TestTask := ⟨⟨ckRecursiveMutexInit, 0⟩, fun _ => .loop 0⟩

/-- any interleaving -/
abbrev TestRun [DecidableEq T] : List (T × MutexEvent Nat) → Config T (Guarded Nat) TestTask → Prop :=
  Threads.Run (TestStep id rounds) (fun _ _ _ _ => True) testStart

end

/-! ## as tasks that use the mutex -/

/-- what the mutex knows of a task -/
def TestTask.mutexTask : TestTask → MutexTask Nat
  | .loop _ | .load _ | .unlock _ => ⟨none, none⟩
  | .locking _ pc | .unlocking _ pc => ⟨some pc, none⟩
  | .store _ v => ⟨none, some v⟩

/-- how deep it holds the mutex -/
def TestTask.holds : TestTask → Nat
  | .loop _ | .locking _ _ => 0
  | .load _ | .store _ _ | .unlock _ | .unlocking _ _ => 1

/-- the rounds in which it has counted -/
def TestTask.counted : TestTask → Nat
  | .loop i | .locking i _ | .load i | .store i _ => i
  | .unlock i | .unlocking i _ => i + 1

/-- a call of the one function is at no place of the other -/
def TestTask.Inside : TestTask → Prop
  | .locking _ pc => ¬ pc.unlocking
  | .unlocking _ pc => pc.unlocking
  | _ => True

section
variable {T : Type} [DecidableEq T] {id : T → Nat} {rounds : Nat}

def mutexConfig (c : Config T (Guarded Nat) TestTask) : Config T (Guarded Nat) (MutexTask Nat) :=
  ⟨c.shared, fun t => (c.locals t).mutexTask⟩

theorem mutexConfig_step (c : Config T (Guarded Nat) TestTask) (t : T) (s : Guarded Nat) (l : TestTask) :
    mutexConfig (c.step t s l) = (mutexConfig c).step t s l.mutexTask := by
  have h : ∀ u, ((c.step t s l).locals u).mutexTask = ((mutexConfig c).step t s l.mutexTask).locals u := by
    intro u
    by_cases hu : u = t
    · rw [hu, Config.step_self, Config.step_self]
    · rw [Config.step_other c s l hu, Config.step_other (mutexConfig c) s _ hu]
      rfl
  show Config.mk s _ = Config.mk s _
  exact congrArg _ (funext h)

/-- each step is one of a task that uses the mutex -/
theorem TestStep.mutex {t : T} {s s' : Guarded Nat} {l l' : TestTask} {e : MutexEvent Nat}
    (h : TestStep id rounds t s l e s' l') : MutexStep id t s l.mutexTask e s' l'.mutexTask := by
  cases h with
  | lock => exact .lock
  | lockAccess ha => exact .access ha
  | lockRet ha => exact .ret ha
  | load => exact .load
  | store => exact .store
  | unlock => exact .unlock
  | unlockAccess ha => exact .access ha
  | unlockRet ha => exact .ret ha

/-- what holds of the step of a task: it keeps to its place, and a lock and an unlock do what they should -/
theorem TestStep.holds {tr : List (T × MutexEvent Nat)} {c : Config T (Guarded Nat) TestTask} {t : T} {s : Guarded Nat}
    {l : TestTask} {e : MutexEvent Nat} (h : TestStep id rounds t c.shared (c.locals t) e s l)
    (hin : (c.locals t).Inside) (hd : depth tr t = (c.locals t).holds)
    (hret : ∀ b, e = .ret (.unlocked b) → b = decide (0 < depth tr t)) :
    l.Inside ∧ depth (tr ++ [(t, e)]) t = l.holds := by
  rw [depth_self, hd]
  generalize hl : c.locals t = x at h hin hd
  rw [hd] at hret
  cases h with
  | lock => exact ⟨not_false, rfl⟩
  | lockAccess ha => exact ⟨fun h => hin ((access_unlocking ha).mp h), rfl⟩
  | @lockRet i pc m r ha =>
    refine ⟨trivial, ?_⟩
    cases r with
    | locked n => rfl
    | unlocked b => exact absurd ((ret_unlocking ha).mpr ⟨b, rfl⟩) hin
  | load => exact ⟨trivial, rfl⟩
  | store => exact ⟨trivial, rfl⟩
  | unlock => exact ⟨trivial, rfl⟩
  | unlockAccess ha => exact ⟨(access_unlocking ha).mpr hin, rfl⟩
  | unlockRet ha =>
    obtain ⟨b, rfl⟩ := (ret_unlocking ha).mp hin
    obtain rfl := hret b rfl
    exact ⟨trivial, rfl⟩

/-- **The test uses the mutex as it should**: its runs are runs of tasks that only read and write the counter while
they hold the mutex, and never hold it twice. -/
theorem TestRun.mutex (hid : Function.Injective id) (hval : ∀ u, id u ≠ taskInvalidId) {tr : List (T × MutexEvent Nat)}
    {c : Config T (Guarded Nat) TestTask} (hr : TestRun id rounds tr c) :
    Threads.Run (MutexStep id) GuardsShallow (mutexStart 0) tr (mutexConfig c) ∧
      ∀ t, (c.locals t).Inside ∧ depth tr t = (c.locals t).holds := by
  induction hr with
  | init => exact ⟨.init, fun _ => ⟨trivial, rfl⟩⟩
  | @step tr c t e s l _ _ hn ih =>
    obtain ⟨hrun, hloc⟩ := ih
    have hok : GuardsShallow tr (mutexConfig c) t e := by
      have hd := (hloc t).2
      have htmp : (mutexConfig c).locals t = (c.locals t).mutexTask := rfl
      generalize c.locals t = x at hn hd htmp
      cases hn with
      | lock => exact ⟨trivial, fun _ => hd ▸ (by decide : 0 + 1 < 2^32)⟩
      | load =>
        refine ⟨?_, fun h => by cases h⟩
        show 0 < depth tr t
        rw [hd]
        exact Nat.one_pos
      | unlock => exact ⟨fun _ => by rw [htmp]; rfl, fun h => by cases h⟩
      | _ => exact ⟨trivial, fun h => by cases h⟩
    have hnext := hn.mutex
    obtain ⟨o, hg, hp⟩ := mutex_places hid hval hrun
    have hcorrect := (MutexStep.spec hg hp hid hval hok hnext).1
    have hself := hn.holds (hloc t).1 (hloc t).2 hcorrect.unlocked
    refine ⟨by rw [mutexConfig_step]; exact hrun.step hok hnext, fun u => ?_⟩
    by_cases hu : u = t
    · rw [hu, Config.step_self]
      exact hself
    · rw [Config.step_other c s l hu, depth_other tr e hu]
      exact hloc u

/-! ## the count -/

theorem increaseCount_u32 (n : Nat) : increaseCount (u32 n) = u32 (n + 1) := by
  unfold increaseCount sub32 u32
  omega

theorem foldl_increase (fs : List (Nat → Nat)) (h : ∀ f ∈ fs, f = increaseCount) : ∀ n,
    fs.foldl (fun m f => f m) (u32 n) = u32 (n + fs.length) := by
  induction fs with
  | nil => exact fun n => rfl
  | cons f fs ih =>
    intro n
    have hf := h f List.mem_cons_self
    rw [List.foldl_cons, hf, increaseCount_u32, ih (fun g hg => h g (List.mem_cons_of_mem _ hg)), List.length_cons]
    congr 1
    omega

theorem updates_increase {tr : List (T × MutexEvent Nat)} {c : Config T (Guarded Nat) TestTask}
    (hr : TestRun id rounds tr c) : ∀ f ∈ updates tr, f = increaseCount := by
  induction hr with
  | init => exact List.forall_mem_nil _
  | @step tr c t e s l _ _ hn ih =>
    rw [updates_snoc]
    intro f hf
    rcases List.mem_append.mp hf with hf | hf
    · exact ih f hf
    · generalize c.locals t = x at hn
      cases hn <;> simp_all [updates]

/-- the rounds counted are the updates -/
theorem counted_sum [Fintype T] {tr : List (T × MutexEvent Nat)} {c : Config T (Guarded Nat) TestTask}
    (hr : TestRun id rounds tr c) : ∑ t, (c.locals t).counted = (updates tr).length := by
  induction hr with
  | init => simp [testStart, TestTask.counted, updates]
  | @step tr c t e s l _ _ hn ih =>
    have hrest : ∀ u ∈ Finset.univ.erase t, ((c.step t s l).locals u).counted = (c.locals u).counted := fun u hu => by
      rw [Config.step_other c s l (Finset.ne_of_mem_erase hu)]
    rw [← Finset.add_sum_erase _ _ (Finset.mem_univ t)] at ih ⊢
    rw [Finset.sum_congr rfl hrest, Config.step_self, updates_snoc, List.length_append, ← ih]
    generalize c.locals t = x at hn
    cases hn with
    | store => simp [updates, TestTask.counted]; omega
    | _ => simp [updates, TestTask.counted]

/-- **No round of the test is lost**, at every interleaving of any number of tasks: the counter is the number of rounds
that have counted, no two tasks are between a lock and an unlock at once, and when all tasks are through the counter is
their number times the rounds. -/
theorem testmutex_counts [Fintype T] (hid : Function.Injective id) (hval : ∀ u, id u ≠ taskInvalidId)
    {tr : List (T × MutexEvent Nat)} {c : Config T (Guarded Nat) TestTask} (hr : TestRun id rounds tr c) :
    c.shared.count = u32 (∑ t, (c.locals t).counted) ∧
      (∀ t u, (c.locals t).holds = 1 → (c.locals u).holds = 1 → t = u) ∧
      ((∀ t, c.locals t = .loop rounds) → c.shared.count = u32 (Fintype.card T * rounds)) := by
  obtain ⟨hrun, hloc⟩ := hr.mutex hid hval
  obtain ⟨o, hg, hp⟩ := mutex_places hid hval hrun
  have hone : ∀ t u, 0 < depth tr t → 0 < depth tr u → t = u := fun t u ht hu =>
    Option.some.inj (((hp t).owner ht).1.symm.trans ((hp u).owner hu).1)
  have hsum : c.shared.count = u32 (∑ t, (c.locals t).counted) := by
    have h := foldl_increase (updates tr) (updates_increase hr) 0
    rw [Nat.zero_add] at h
    rw [counted_sum hr, ← h]
    exact hg.count
  refine ⟨hsum, fun t u ht hu => hone t u ?_ ?_, fun hdone => ?_⟩
  · rw [(hloc t).2, ht]
    exact Nat.one_pos
  · rw [(hloc u).2, hu]
    exact Nat.one_pos
  · rw [hsum, Finset.sum_congr rfl fun t _ => show (c.locals t).counted = rounds by rw [hdone t]; rfl,
      Finset.sum_const, Finset.card_univ]
    rfl

/-! ## a run to the end -/

theorem TestRun.next {tr : List (T × MutexEvent Nat)} {c : Config T (Guarded Nat) TestTask} {t : T}
    {s s' : Guarded Nat} {l l' : TestTask} {e : MutexEvent Nat} (hr : TestRun id rounds tr (c.step t s l))
    (hn : TestStep id rounds t s l e s' l') : TestRun id rounds (tr ++ [(t, e)]) (c.step t s' l') := by
  have h := hr.step (t := t) (e := e) trivial (by rw [Config.step_self]; exact hn)
  have hstep : (c.step t s l).step t s' l' = c.step t s' l' := by
    show Config.mk s' (Function.update (Function.update c.locals t l) t l') = _
    rw [Function.update_idem]
    rfl
  rwa [hstep] at h

theorem step_same {c : Config T (Guarded Nat) TestTask} {t : T} {s : Guarded Nat} {l : TestTask} (hs : c.shared = s)
    (hl : c.locals t = l) : c.step t s l = c := by
  subst hs hl
  show Config.mk _ (Function.update c.locals t (c.locals t)) = c
  rw [Function.update_eq_self]

/-- a task alone gets through its round when no task holds the mutex -/
theorem TestRun.round {tr : List (T × MutexEvent Nat)} {c : Config T (Guarded Nat) TestTask} {t : T} {i v : Nat}
    (hr : TestRun id rounds tr c) (hs : c.shared = ⟨ckRecursiveMutexInit, v⟩) (hl : c.locals t = .loop i)
    (hi : i < rounds) :
    ∃ tr', TestRun id rounds tr' (c.step t ⟨ckRecursiveMutexInit, increaseCount v⟩ (.loop (i + 1))) := by
  have r₀ : TestRun id rounds tr (c.step t ⟨ckRecursiveMutexInit, v⟩ (.loop i)) := by
    rw [step_same hs hl]
    exact hr
  have r₁ := r₀.next (.lock hi)
  have r₂ := r₁.next (.lockAccess rfl)
  have r₃ := r₂.next (.lockAccess rfl)
  have r₄ := r₃.next (.lockRet rfl)
  have r₅ := r₄.next .load
  have r₆ := r₅.next .store
  have r₇ := r₆.next .unlock
  have r₈ := r₇.next (.unlockAccess rfl)
  have r₉ := r₈.next (.unlockAccess (m := ⟨id t, 1, true⟩) (if_pos rfl))
  have r₁₀ := r₉.next (.unlockAccess rfl)
  have r₁₁ := r₁₀.next (.unlockAccess rfl)
  have r₁₂ := r₁₁.next (.unlockAccess rfl)
  exact ⟨_, r₁₂.next (.unlockRet rfl)⟩

end

/-- two tasks with one round each -/
theorem testmutex_counts_two : ∃ (tr : List (Bool × MutexEvent Nat)) (c : Config Bool (Guarded Nat) TestTask),
    TestRun (fun b : Bool => cond b 1 0) 1 tr c ∧ c.shared.count = 2 := by
  have hid : Function.Injective fun b : Bool => cond b 1 0 := fun a b h => by
    cases a <;> cases b <;> first | rfl | cases h
  have hval : ∀ b : Bool, cond b 1 0 ≠ taskInvalidId := by decide
  have r₀ : TestRun (fun b : Bool => cond b 1 0) 1 [] testStart := .init
  obtain ⟨tr₁, r₁⟩ := r₀.round (t := true) rfl rfl Nat.zero_lt_one
  obtain ⟨tr₂, r₂⟩ := r₁.round (t := false) rfl rfl Nat.zero_lt_one
  refine ⟨_, _, r₂, ?_⟩
  rw [(testmutex_counts hid hval r₂).2.2 fun t => by cases t <;> rfl]
  rfl

end Clubcos
