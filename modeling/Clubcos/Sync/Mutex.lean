import Clubcos.Lib.Threads
import Clubcos.Task.Model

/-!
# recursive_mutex.c: the recursive mutex

`Pc` are the places between two accesses to `bLocked`, `TaskId` and `LockCount`: each read, write and
compare-and-swap of one of them is a step of `ckRecursiveMutex`.  Tasks call the functions in any order; in
between they may read and write a counter.

* `MutexStep`          one step of a task;
* `Held`              what the task that holds the mutex knows at each place;
* `EndsBy`            a call returns within a number of its own accesses;
* `mutex_excludes`     **the mutex excludes and counts correctly at every interleaving**, for tasks that
                       nest it less than `2^32` deep;
* `lock_wraps`         the `2^32`-th nested lock returns `0`.
-/

set_option linter.unusedVariables false
set_option linter.unusedSectionVars false

namespace Clubcos
open Word Threads

structure RecursiveMutex where
  taskId : Nat
  lockCount : Nat
  bLocked : Bool

def ckRecursiveMutexInit : RecursiveMutex := ⟨taskInvalidId, 0, false⟩

/-- the next access of a task inside `ckRecursiveMutexLock` or `ckRecursiveMutexUnlock` -/
inductive Pc where
  /-- the first compare-and-swap -/
  | lockCas
  /-- `pMutex->TaskId == pCur->id` -/
  | lockRead
  /-- `++pMutex->LockCount`, the read and the write -/
  | lockCount
  | lockStore (n : Nat)
  /-- the compare-and-swap of the loop -/
  | lockSpin
  | lockSet
  | lockOwn
  /-- the two halves of the condition -/
  | unlockLocked
  | unlockId
  | unlockCount
  | unlockStore (n : Nat)
  | unlockZero
  | unlockClear
  | unlockFree
deriving DecidableEq

inductive Ret where
  | locked (n : Nat)
  | unlocked (b : Bool)
deriving DecidableEq

/-- one access to the mutex by the task with the id `self`: then the call goes on, or it returns -/
def ckRecursiveMutex (self : Nat) (m : RecursiveMutex) : Pc → RecursiveMutex × (Pc ⊕ Ret)
  | .lockCas => if m.bLocked then (m, .inl .lockRead) else ({ m with bLocked := true }, .inl .lockSet)
  | .lockRead => if m.taskId = self then (m, .inl .lockCount) else (m, .inl .lockSpin)
  | .lockCount => (m, .inl (.lockStore m.lockCount))
  | .lockStore n => ({ m with lockCount := u32 (n + 1) }, .inr (.locked (u32 (n + 1))))
  | .lockSpin => if m.bLocked then (m, .inl .lockSpin) else ({ m with bLocked := true }, .inl .lockSet)
  | .lockSet => ({ m with lockCount := 1 }, .inl .lockOwn)
  | .lockOwn => ({ m with taskId := self }, .inr (.locked 1))
  | .unlockLocked => if m.bLocked then (m, .inl .unlockId) else (m, .inr (.unlocked false))
  | .unlockId => if m.taskId = self then (m, .inl .unlockCount) else (m, .inr (.unlocked false))
  | .unlockCount => if 1 < m.lockCount then (m, .inl (.unlockStore m.lockCount)) else (m, .inl .unlockZero)
  | .unlockStore n => ({ m with lockCount := sub32 n 1 }, .inr (.unlocked true))
  | .unlockZero => ({ m with lockCount := 0 }, .inl .unlockClear)
  | .unlockClear => ({ m with taskId := taskInvalidId }, .inl .unlockFree)
  | .unlockFree => ({ m with bLocked := false }, .inr (.unlocked true))

/-! ## tasks -/

/-- the mutex and a counter that the tasks share -/
structure Guarded (V : Type) where
  mutex : RecursiveMutex
  count : V

/-- a task outside of the two functions has no `pc`; `tmp` is the counter it has read and not yet written back -/
structure MutexTask (V : Type) where
  pc : Option Pc
  tmp : Option V

inductive MutexEvent (V : Type) where
  | lock
  | unlock
  | access
  | ret (r : Ret)
  | load
  | store (f : V → V)

section
variable {T V : Type} (id : T → Nat)

inductive MutexStep (t : T) (s : Guarded V) : MutexTask V → MutexEvent V → Guarded V → MutexTask V → Prop
  | lock {tmp} : MutexStep t s ⟨none, tmp⟩ .lock s ⟨some .lockCas, tmp⟩
  | unlock {tmp} : MutexStep t s ⟨none, tmp⟩ .unlock s ⟨some .unlockLocked, tmp⟩
  | access {pc tmp m pc'} : ckRecursiveMutex (id t) s.mutex pc = (m, .inl pc') →
      MutexStep t s ⟨some pc, tmp⟩ .access { s with mutex := m } ⟨some pc', tmp⟩
  | ret {pc tmp m r} : ckRecursiveMutex (id t) s.mutex pc = (m, .inr r) →
      MutexStep t s ⟨some pc, tmp⟩ (.ret r) { s with mutex := m } ⟨none, tmp⟩
  | load : MutexStep t s ⟨none, none⟩ .load s ⟨none, some s.count⟩
  | store {v f} : MutexStep t s ⟨none, some v⟩ (.store f) { s with count := f v } ⟨none, none⟩

/-- what a lock or an unlock that returns does to the number of locks that a task has to undo -/
def nest (d : Nat) : MutexEvent V → Nat
  | .ret (.locked _) => d + 1
  | .ret (.unlocked true) => d - 1
  | _ => d

variable [DecidableEq T]

/-- the nesting depth of a task: the locks that have returned, less the unlocks that have returned `true` -/
def depth (tr : List (T × MutexEvent V)) (t : T) : Nat := (own t tr).foldl nest 0

/-- the updates of the counter, in the order in which they were written -/
def updates (tr : List (T × MutexEvent V)) : List (V → V) :=
  tr.filterMap fun e => match e.2 with
    | .store f => some f
    | _ => none

/-- The counter is read and written back only by a task that holds the mutex all the while. -/
def Guards (tr : List (T × MutexEvent V)) (c : Config T (Guarded V) (MutexTask V)) (t : T) : MutexEvent V → Prop
  | .load => 0 < depth tr t
  | .unlock => depth tr t ≤ 1 → (c.locals t).tmp = none
  | _ => True

/-- and no task nests the mutex `2^32` deep -/
def GuardsShallow (tr : List (T × MutexEvent V)) (c : Config T (Guarded V) (MutexTask V)) (t : T)
    (e : MutexEvent V) : Prop :=
  Guards tr c t e ∧ (e = .lock → depth tr t + 1 < 2^32)

def mutexStart (v : V) : Config T (Guarded V) (MutexTask V) := ⟨⟨ckRecursiveMutexInit, v⟩, fun _ => ⟨none, none⟩⟩

/-! ## the places of a task -/

/-- what the task with the id `self` knows at a place while it holds the mutex `d` deep -/
def Held (self d : Nat) (m : RecursiveMutex) : Option Pc → Prop
  | none => 1 ≤ d ∧ d < 2^32 ∧ m.taskId = self ∧ m.lockCount = d
  | some .lockCas => 1 ≤ d ∧ d + 1 < 2^32 ∧ m.taskId = self ∧ m.lockCount = d
  | some .lockRead => 1 ≤ d ∧ d + 1 < 2^32 ∧ m.taskId = self ∧ m.lockCount = d
  | some .lockCount => 1 ≤ d ∧ d + 1 < 2^32 ∧ m.taskId = self ∧ m.lockCount = d
  | some (.lockStore n) => 1 ≤ d ∧ d + 1 < 2^32 ∧ m.taskId = self ∧ n = d
  | some .lockSpin => False
  | some .lockSet => d = 0 ∧ m.taskId = taskInvalidId
  | some .lockOwn => d = 0 ∧ m.taskId = taskInvalidId ∧ m.lockCount = 1
  | some .unlockLocked => 1 ≤ d ∧ d < 2^32 ∧ m.taskId = self ∧ m.lockCount = d
  | some .unlockId => 1 ≤ d ∧ d < 2^32 ∧ m.taskId = self ∧ m.lockCount = d
  | some .unlockCount => 1 ≤ d ∧ d < 2^32 ∧ m.taskId = self ∧ m.lockCount = d
  | some (.unlockStore n) => 2 ≤ d ∧ d < 2^32 ∧ m.taskId = self ∧ n = d
  | some .unlockZero => d = 1 ∧ m.taskId = self
  | some .unlockClear => d = 1 ∧ m.taskId = self
  | some .unlockFree => d = 1 ∧ m.taskId = taskInvalidId

/-- the places of a task that does not hold the mutex -/
def FreePc : Option Pc → Prop
  | none | some .lockCas | some .lockRead | some .lockSpin | some .unlockLocked | some .unlockId => True
  | _ => False

def Pc.unlocking : Pc → Prop
  | .unlockLocked | .unlockId | .unlockCount | .unlockStore _ | .unlockZero | .unlockClear | .unlockFree => True
  | _ => False

theorem Held.taskId {self d : Nat} {m : RecursiveMutex} {pc : Option Pc} (h : Held self d m pc) :
    m.taskId = self ∨ m.taskId = taskInvalidId := by
  rcases pc with _ | pc
  · exact Or.inl h.2.2.1
  · cases pc <;> unfold Held at h <;> simp_all

/-- the accesses that a call still makes, the one at its place counted in, if it has not to wait for the mutex -/
def Pc.left : Pc → Nat
  | .lockCas => 4
  | .lockRead | .lockSpin => 3
  | .lockCount | .lockSet => 2
  | .lockStore _ | .lockOwn => 1
  | .unlockLocked => 6
  | .unlockId => 5
  | .unlockCount => 4
  | .unlockZero => 3
  | .unlockClear => 2
  | .unlockStore _ | .unlockFree => 1

theorem Pc.left_pos (pc : Pc) : 0 < pc.left := by
  cases pc <;> exact Nat.succ_pos _

theorem access_unlocking {self : Nat} {m m' : RecursiveMutex} {pc pc' : Pc}
    (h : ckRecursiveMutex self m pc = (m', .inl pc')) : pc'.unlocking ↔ pc.unlocking := by
  cases pc with
  | lockStore | lockOwn | unlockStore | unlockFree => simp [ckRecursiveMutex] at h
  | lockCas | lockRead | lockSpin | unlockLocked | unlockId | unlockCount =>
    simp only [ckRecursiveMutex] at h
    split at h <;> cases h <;> rfl
  | lockCount | lockSet | unlockZero | unlockClear =>
    cases h
    rfl

theorem ret_unlocking {self : Nat} {m m' : RecursiveMutex} {pc : Pc} {r : Ret}
    (h : ckRecursiveMutex self m pc = (m', .inr r)) : pc.unlocking ↔ ∃ b, r = .unlocked b := by
  cases pc with
  | lockCount | lockSet | unlockZero | unlockClear => simp [ckRecursiveMutex] at h
  | lockCas | lockRead | lockSpin | unlockLocked | unlockId | unlockCount =>
    simp only [ckRecursiveMutex] at h
    split at h <;> cases h
    all_goals simp [Pc.unlocking]
  | lockStore | lockOwn | unlockStore | unlockFree =>
    cases h
    simp [Pc.unlocking]

/-- **An access of an unlock** brings it nearer to its end. -/
theorem unlock_left {self : Nat} {m m' : RecursiveMutex} {pc pc' : Pc} (hu : pc.unlocking)
    (h : ckRecursiveMutex self m pc = (m', .inl pc')) : pc'.left < pc.left := by
  cases pc with
  | unlockLocked | unlockId | unlockCount =>
    simp only [ckRecursiveMutex] at h
    split at h <;> cases h <;> simp [Pc.left]
  | unlockZero | unlockClear =>
    cases h
    simp [Pc.left]
  | unlockStore | unlockFree => cases h
  | _ => exact hu.elim

/-- **An access of the task that holds the mutex** brings its lock nearer to its end, as it need not wait. -/
theorem lock_left {self d : Nat} {m m' : RecursiveMutex} {pc pc' : Pc} (hh : Held self d m (some pc))
    (hb : m.bLocked = true) (hu : ¬ pc.unlocking) (h : ckRecursiveMutex self m pc = (m', .inl pc')) :
    pc'.left < pc.left := by
  cases pc with
  | lockCas =>
    rw [ckRecursiveMutex, if_pos hb] at h
    cases h
    decide
  | lockRead =>
    rw [ckRecursiveMutex, if_pos hh.2.2.1] at h
    cases h
    decide
  | lockCount | lockSet =>
    cases h
    simp [Pc.left]
  | lockSpin => exact hh.elim
  | lockStore | lockOwn => cases h
  | _ => exact absurd trivial hu

/-- **An access of a task that does not hold the mutex** changes nothing, or takes it. -/
theorem free_access {self : Nat} {m : RecursiveMutex} {pc : Pc} (hf : FreePc (some pc)) (hne : m.taskId ≠ self) :
    (∃ pc', ckRecursiveMutex self m pc = (m, .inl pc') ∧ FreePc (some pc')) ∨
    (ckRecursiveMutex self m pc = (m, .inr (.unlocked false)) ∧ pc.unlocking) ∨
    (m.bLocked = false ∧ ¬ pc.unlocking ∧
      ckRecursiveMutex self m pc = ({ m with bLocked := true }, .inl .lockSet)) := by
  cases pc with
  | lockCas =>
    cases hb : m.bLocked with
    | true => exact Or.inl ⟨.lockRead, by simp [ckRecursiveMutex, hb], trivial⟩
    | false => exact Or.inr (Or.inr ⟨rfl, nofun, by simp [ckRecursiveMutex, hb]⟩)
  | lockRead => exact Or.inl ⟨.lockSpin, if_neg hne, trivial⟩
  | lockSpin =>
    cases hb : m.bLocked with
    | true => exact Or.inl ⟨.lockSpin, by simp [ckRecursiveMutex, hb], trivial⟩
    | false => exact Or.inr (Or.inr ⟨rfl, nofun, by simp [ckRecursiveMutex, hb]⟩)
  | unlockLocked =>
    cases hb : m.bLocked with
    | true => exact Or.inl ⟨.unlockId, by simp [ckRecursiveMutex, hb], trivial⟩
    | false => exact Or.inr (Or.inl ⟨by simp [ckRecursiveMutex, hb], trivial⟩)
  | unlockId => exact Or.inr (Or.inl ⟨if_neg hne, trivial⟩)
  | _ => exact hf.elim

/-- **An access of the task that holds the mutex**: it stays inside the call, or the lock or the unlock
returns. -/
theorem held_access {self d : Nat} {m : RecursiveMutex} {pc : Pc} (h : Held self d m (some pc))
    (hb : m.bLocked = true) :
    (∃ m' pc', ckRecursiveMutex self m pc = (m', .inl pc') ∧ m'.bLocked = true ∧ Held self d m' (some pc') ∧
      (pc'.unlocking ↔ pc.unlocking)) ∨
    (∃ m', ckRecursiveMutex self m pc = (m', .inr (.locked (d + 1))) ∧ ¬ pc.unlocking ∧ m'.bLocked = true ∧
      Held self (d + 1) m' none) ∨
    (∃ m', ckRecursiveMutex self m pc = (m', .inr (.unlocked true)) ∧ pc.unlocking ∧ m'.bLocked = true ∧ 2 ≤ d ∧
      Held self (d - 1) m' none) ∨
    ∃ m', ckRecursiveMutex self m pc = (m', .inr (.unlocked true)) ∧ pc.unlocking ∧ d = 1 ∧ m'.bLocked = false ∧
      m'.taskId = taskInvalidId := by
  cases pc with
  | lockCas => exact Or.inl ⟨m, .lockRead, if_pos hb, hb, h, Iff.rfl⟩
  | lockRead => exact Or.inl ⟨m, .lockCount, if_pos h.2.2.1, hb, h, Iff.rfl⟩
  | lockCount => exact Or.inl ⟨m, .lockStore m.lockCount, rfl, hb, h, Iff.rfl⟩
  | lockStore n =>
    obtain ⟨h1, h2, hid, rfl⟩ := h
    have hu : u32 (n + 1) = n + 1 := u32_of_lt h2
    refine Or.inr (Or.inl ⟨{ m with lockCount := u32 (n + 1) }, ?_, nofun, hb, Nat.le_add_left 1 n, h2, hid, hu⟩)
    show (_, Sum.inr (Ret.locked (u32 (n + 1)))) = _
    rw [hu]
  | lockSpin => exact h.elim
  | lockSet => exact Or.inl ⟨{ m with lockCount := 1 }, .lockOwn, rfl, hb, ⟨h.1, h.2, rfl⟩, Iff.rfl⟩
  | lockOwn =>
    obtain ⟨rfl, _, hc⟩ := h
    exact Or.inr (Or.inl ⟨{ m with taskId := self }, rfl, nofun, hb, Nat.le_refl 1, by decide, rfl, hc⟩)
  | unlockLocked => exact Or.inl ⟨m, .unlockId, if_pos hb, hb, h, Iff.rfl⟩
  | unlockId => exact Or.inl ⟨m, .unlockCount, if_pos h.2.2.1, hb, h, Iff.rfl⟩
  | unlockCount =>
    obtain ⟨h1, h2, hid, hc⟩ := h
    by_cases hd : 1 < m.lockCount
    · exact Or.inl ⟨m, .unlockStore m.lockCount, if_pos hd, hb, ⟨hc ▸ hd, h2, hid, hc⟩, Iff.rfl⟩
    · exact Or.inl ⟨m, .unlockZero, if_neg hd, hb, ⟨by omega, hid⟩, Iff.rfl⟩
  | unlockStore n =>
    obtain ⟨h1, h2, hid, rfl⟩ := h
    have hs : sub32 n 1 = n - 1 := sub32_of_le (by omega) h2
    exact Or.inr (Or.inr (Or.inl ⟨{ m with lockCount := sub32 n 1 }, rfl, trivial, hb, h1, by omega, by omega, hid, hs⟩))
  | unlockZero => exact Or.inl ⟨{ m with lockCount := 0 }, .unlockClear, rfl, hb, h, Iff.rfl⟩
  | unlockClear => exact Or.inl ⟨{ m with taskId := taskInvalidId }, .unlockFree, rfl, hb, ⟨h.1, rfl⟩, Iff.rfl⟩
  | unlockFree => exact Or.inr (Or.inr (Or.inr ⟨{ m with bLocked := false }, rfl, trivial, h.1, rfl, h.2⟩))

/-! ## the invariant -/

theorem depth_self (tr : List (T × MutexEvent V)) (t : T) (e : MutexEvent V) :
    depth (tr ++ [(t, e)]) t = nest (depth tr t) e := by
  rw [depth, own_self, List.foldl_concat, depth]

theorem depth_other (tr : List (T × MutexEvent V)) {t u : T} (e : MutexEvent V) (h : u ≠ t) :
    depth (tr ++ [(t, e)]) u = depth tr u := by
  rw [depth, own_other tr e h, depth]

/-- a task that has read the counter holds the mutex and keeps it -/
def Keeps (d : Nat) (pc : Option Pc) (count : V) (tmp : Option V) : Prop :=
  ∀ v ∈ tmp, v = count ∧ 1 ≤ d ∧ ∀ p ∈ pc, p.unlocking → 2 ≤ d

/-- the assertion of the task `t`; `o` is the task that holds the mutex -/
def MutexPlace (o : Option T) (tr : List (T × MutexEvent V)) (t : T) (s : Guarded V) (l : MutexTask V) : Prop :=
  (o = some t ∧ Held (id t) (depth tr t) s.mutex l.pc ∧ Keeps (depth tr t) l.pc s.count l.tmp) ∨
  (o ≠ some t ∧ depth tr t = 0 ∧ FreePc l.pc ∧ l.tmp = none)

structure MutexShared (v : V) (o : Option T) (tr : List (T × MutexEvent V)) (s : Guarded V) : Prop where
  locked : s.mutex.bLocked = o.isSome
  idle : o = none → s.mutex.taskId = taskInvalidId
  count : s.count = (updates tr).foldl (fun n f => f n) v

theorem MutexShared.held {v : V} {o : Option T} {tr : List (T × MutexEvent V)} {s : Guarded V} (h : MutexShared v o tr s)
    {t : T} (ho : o = some t) : s.mutex.bLocked = true := by
  rw [h.locked, ho]
  rfl

variable {id}

/-- the assertion of a task that does not hold the mutex is about nothing that the others change -/
theorem MutexPlace.other {o o' : Option T} {tr : List (T × MutexEvent V)} {t u : T} {s s' : Guarded V} {l : MutexTask V}
    {e : MutexEvent V} (hne : u ≠ t) (ho : o = some t ∨ s' = s ∧ o' = o ∨ o = none)
    (ho' : o' = o ∨ o' = some t ∨ o' = none) (h : MutexPlace id o tr u s l) :
    MutexPlace id o' (tr ++ [(t, e)]) u s' l := by
  rw [MutexPlace, depth_other tr e hne]
  rcases h with ⟨h1, h2, h3⟩ | ⟨h1, h2, h3, h4⟩
  · rcases ho with ho | ⟨rfl, rfl⟩ | ho
    · exact absurd (Option.some.inj (h1.symm.trans ho)) hne
    · exact Or.inl ⟨h1, h2, h3⟩
    · rw [ho] at h1
      cases h1
  · refine Or.inr ⟨?_, h2, h3, h4⟩
    rcases ho' with rfl | rfl | rfl
    · exact h1
    · exact fun h => hne (Option.some.inj h).symm
    · nofun

theorem updates_snoc (tr : List (T × MutexEvent V)) (t : T) (e : MutexEvent V) :
    updates (tr ++ [(t, e)]) = updates tr ++ updates [(t, e)] := List.filterMap_append

/-- what a step of the task `t` returns and does to the mutex -/
structure MutexCorrect (tr : List (T × MutexEvent V)) (t : T) (s : Guarded V) (l : MutexTask V) (e : MutexEvent V)
    (s' : Guarded V) : Prop where
  locked : ∀ n, e = .ret (.locked n) → n = depth tr t + 1
  unlocked : ∀ b, e = .ret (.unlocked b) → b = decide (0 < depth tr t)
  released : s.mutex.bLocked = true ∧ s'.mutex.bLocked = false ↔ e = .ret (.unlocked true) ∧ depth tr t = 1
  refused : ∀ pc ∈ l.pc, pc.unlocking → depth tr t = 0 → s'.mutex = s.mutex

/-- a step that leaves the mutex as it is and returns nothing -/
theorem MutexCorrect.quiet {tr : List (T × MutexEvent V)} {t : T} {s s' : Guarded V} {l : MutexTask V} {e : MutexEvent V}
    (hm : s'.mutex = s.mutex) (he : ∀ r, e ≠ .ret r) : MutexCorrect tr t s l e s' := by
  refine ⟨fun n h => absurd h (he _), fun b h => absurd h (he _), ⟨fun h => ?_, fun h => absurd h.1 (he _)⟩,
    fun _ _ _ _ => hm⟩
  rw [hm, h.1] at h
  cases h.2

theorem MutexShared.same {v : V} {o : Option T} {tr : List (T × MutexEvent V)} {s s' : Guarded V} {t : T}
    {e : MutexEvent V} (hg : MutexShared v o tr s) (hb : s'.mutex.bLocked = s.mutex.bLocked)
    (hi : o = none → s'.mutex.taskId = s.mutex.taskId) (hc : s'.count = s.count) (he : ∀ f, e ≠ .store f) :
    MutexShared v o (tr ++ [(t, e)]) s' := by
  refine ⟨hb.trans hg.locked, fun h => (hi h).trans (hg.idle h), ?_⟩
  have hnil : updates [(t, e)] = [] := by
    cases e with
    | store f => exact absurd rfl (he f)
    | _ => rfl
  rw [hc, hg.count, updates_snoc, hnil, List.append_nil]

section
variable {v : V} {o : Option T} {tr : List (T × MutexEvent V)} {c : Config T (Guarded V) (MutexTask V)} {t : T}
  {e : MutexEvent V} {s : Guarded V} {l : MutexTask V}
  (hg : MutexShared v o tr c.shared) (hp : ∀ u, MutexPlace id o tr u c.shared (c.locals u))
include hg hp

/-- a step of a task that holds the mutex and keeps it -/
theorem held_step (ho : o = some t) (hb : s.mutex.bLocked = true) (hc : s.count = c.shared.count)
    (he : ∀ f, e ≠ .store f) (hh : Held (id t) (nest (depth tr t) e) s.mutex l.pc)
    (hk : Keeps (nest (depth tr t) e) l.pc s.count l.tmp) :
    MutexShared v o (tr ++ [(t, e)]) s ∧ MutexPlace id o (tr ++ [(t, e)]) t s l ∧
      ∀ u, u ≠ t → MutexPlace id o (tr ++ [(t, e)]) u s (c.locals u) := by
  refine ⟨hg.same (hb.trans (hg.held ho).symm) (fun h => ?_) hc he, ?_, fun u hu => (hp u).other hu (Or.inl ho) (Or.inl rfl)⟩
  · rw [ho] at h
    cases h
  · rw [MutexPlace, depth_self]
    exact Or.inl ⟨ho, hh, hk⟩

/-- a step of a task that does not hold the mutex and does not take it -/
theorem free_step (ho : o ≠ some t) (hs : s = c.shared) (he : ∀ f, e ≠ .store f) (hd : nest (depth tr t) e = 0)
    (hf : FreePc l.pc) (ht : l.tmp = none) :
    MutexShared v o (tr ++ [(t, e)]) s ∧ MutexPlace id o (tr ++ [(t, e)]) t s l ∧
      ∀ u, u ≠ t → MutexPlace id o (tr ++ [(t, e)]) u s (c.locals u) := by
  rw [hs]
  refine ⟨hg.same rfl (fun _ => rfl) rfl he, ?_, fun u hu => (hp u).other hu (Or.inr (Or.inl ⟨rfl, rfl⟩)) (Or.inl rfl)⟩
  rw [MutexPlace, depth_self]
  exact Or.inr ⟨ho, hd, hf, ht⟩

/-- only the task that holds the mutex finds its id in it -/
theorem free_taskId (hid : Function.Injective id) (hval : ∀ u, id u ≠ taskInvalidId) (ho : o ≠ some t) :
    c.shared.mutex.taskId ≠ id t := by
  intro h
  cases o with
  | none => exact hval t (h.symm.trans (hg.idle rfl))
  | some w =>
    rcases hp w with ⟨_, hh, _⟩ | ⟨hw, _⟩
    · rcases hh.taskId with hw | hw
      · exact ho (congrArg some (hid (hw.symm.trans h)))
      · exact hval t (h.symm.trans hw)
    · exact hw rfl

/-- an access of a task inside one of the two functions -/
theorem access_step (hid : Function.Injective id) (hval : ∀ u, id u ≠ taskInvalidId) {pc pc' : Pc} {tmp : Option V}
    {m : RecursiveMutex} (hl : c.locals t = ⟨some pc, tmp⟩)
    (ha : ckRecursiveMutex (id t) c.shared.mutex pc = (m, .inl pc')) :
    MutexCorrect tr t c.shared (c.locals t) .access { c.shared with mutex := m } ∧
    ∃ o', MutexShared v o' (tr ++ [(t, .access)]) { c.shared with mutex := m } ∧
      MutexPlace id o' (tr ++ [(t, .access)]) t { c.shared with mutex := m } ⟨some pc', tmp⟩ ∧
      ∀ u, u ≠ t → MutexPlace id o' (tr ++ [(t, .access)]) u { c.shared with mutex := m } (c.locals u) := by
  have hpt := hp t
  rw [hl] at hpt ⊢
  rcases hpt with ⟨ho, hh, hk⟩ | ⟨ho, hd, hf, ht⟩
  · rcases held_access hh (hg.held ho) with ⟨m₁, pc₁, e, hb, hh', hu⟩ | ⟨m₁, e, _⟩ | ⟨m₁, e, _⟩ | ⟨m₁, e, _⟩ <;>
      cases ha.symm.trans e
    refine ⟨⟨nofun, nofun, ⟨fun h => ?_, fun h => nomatch h.1⟩, fun _ _ _ h0 => ?_⟩, o,
      held_step hg hp ho hb rfl nofun hh' fun w hw => ?_⟩
    · rw [show m.bLocked = true from hb] at h
      cases h.2
    · -- a task that unlocks while it holds the mutex has a lock to undo
      rename_i q hq hunl
      obtain rfl : pc = q := Option.some.inj hq
      exfalso
      cases pc <;> simp only [Held] at hh <;> first | omega | exact hunl.elim
    · obtain ⟨h1, h2, h3⟩ := hk w hw
      exact ⟨h1, h2, fun q hq hun => h3 pc rfl (hu.mp (Option.some.inj hq ▸ hun))⟩
  · rcases free_access hf (free_taskId hg hp hid hval ho) with ⟨pc₁, e, hf'⟩ | ⟨e, _⟩ | ⟨hb, hnu, e⟩ <;>
      cases ha.symm.trans e
    · exact ⟨.quiet rfl nofun, o, free_step hg hp ho rfl nofun hd hf' ht⟩
    · have hnone : o = none := by
        cases o with
        | none => rfl
        | some w =>
          rw [hg.locked] at hb
          cases hb
      refine ⟨⟨nofun, nofun, ⟨fun h => ?_, fun h => nomatch h.1⟩, fun q hq hun => ?_⟩, some t, ⟨rfl, nofun, ?_⟩, ?_,
        fun u hu => (hp u).other hu (Or.inr (Or.inr hnone)) (Or.inr (Or.inl rfl))⟩
      · cases h.2
      · obtain rfl : pc = q := Option.some.inj hq
        exact absurd hun hnu
      · rw [updates_snoc]
        exact hg.count.trans (congrArg _ (List.append_nil _).symm)
      · rw [MutexPlace, depth_self]
        exact Or.inl ⟨rfl, ⟨hd, hg.idle hnone⟩, fun w hw => by rw [ht] at hw; cases hw⟩

/-- a lock or an unlock returns -/
theorem ret_step (hid : Function.Injective id) (hval : ∀ u, id u ≠ taskInvalidId) {pc : Pc} {tmp : Option V}
    {m : RecursiveMutex} {r : Ret} (hl : c.locals t = ⟨some pc, tmp⟩)
    (ha : ckRecursiveMutex (id t) c.shared.mutex pc = (m, .inr r)) :
    MutexCorrect tr t c.shared (c.locals t) (.ret r) { c.shared with mutex := m } ∧
    ∃ o', MutexShared v o' (tr ++ [(t, .ret r)]) { c.shared with mutex := m } ∧
      MutexPlace id o' (tr ++ [(t, .ret r)]) t { c.shared with mutex := m } ⟨none, tmp⟩ ∧
      ∀ u, u ≠ t → MutexPlace id o' (tr ++ [(t, .ret r)]) u { c.shared with mutex := m } (c.locals u) := by
  have hpt := hp t
  rw [hl] at hpt ⊢
  rcases hpt with ⟨ho, hh, hk⟩ | ⟨ho, hd, hf, ht⟩
  · rcases held_access hh (hg.held ho) with ⟨m₁, pc₁, e, _⟩ | ⟨m₁, e, hnu, hb, hh'⟩ | ⟨m₁, e, hun, hb, hd, hh'⟩ |
        ⟨m₁, e, hun, hd, hb, hinv⟩ <;> cases ha.symm.trans e
    · refine ⟨⟨fun n h => ?_, nofun, ⟨fun h => ?_, fun h => nomatch h.1⟩, fun q hq hun => ?_⟩, o,
        held_step hg hp ho hb rfl nofun hh' fun w hw => ?_⟩
      · cases h
        rfl
      · rw [show m.bLocked = true from hb] at h
        cases h.2
      · obtain rfl : pc = q := Option.some.inj hq
        exact absurd hun hnu
      · exact ⟨(hk w hw).1, Nat.le_add_left 1 _, nofun⟩
    · refine ⟨⟨nofun, fun b h => ?_, ⟨fun h => ?_, fun h => ?_⟩, fun _ _ _ h0 => ?_⟩, o,
        held_step hg hp ho hb rfl nofun hh' fun w hw => ?_⟩
      · cases h
        exact (decide_eq_true (by omega)).symm
      · rw [show m.bLocked = true from hb] at h
        cases h.2
      · omega
      · omega
      · have h2 := (hk w hw).2.2 pc rfl hun
        exact ⟨(hk w hw).1, show 1 ≤ depth tr t - 1 by omega, nofun⟩
    · -- the last unlock: no task holds the mutex any more
      have htmp : tmp = none := by
        cases htmp : tmp with
        | none => rfl
        | some w =>
          have h2 := (hk w (by rw [htmp]; rfl)).2.2 pc rfl hun
          omega
      refine ⟨⟨nofun, fun b h => ?_, ⟨fun _ => ⟨rfl, hd⟩, fun _ => ⟨hg.held ho, hb⟩⟩, fun _ _ _ h0 => ?_⟩, none,
        ⟨hb, fun _ => hinv, ?_⟩, ?_, fun u hu => (hp u).other hu (Or.inl ho) (Or.inr (Or.inr rfl))⟩
      · cases h
        exact (decide_eq_true (by omega)).symm
      · omega
      · rw [updates_snoc]
        exact hg.count.trans (congrArg _ (List.append_nil _).symm)
      · rw [MutexPlace, depth_self]
        exact Or.inr ⟨nofun, by show depth tr t - 1 = 0; omega, trivial, htmp⟩
  · rcases free_access hf (free_taskId hg hp hid hval ho) with ⟨pc₁, e, _⟩ | ⟨e, hun⟩ | ⟨_, _, e⟩ <;>
      cases ha.symm.trans e
    refine ⟨⟨nofun, fun b h => ?_, ⟨fun h => ?_, fun h => ?_⟩, fun _ _ _ _ => rfl⟩, o,
      free_step hg hp ho rfl nofun hd trivial ht⟩
    · cases h
      exact (decide_eq_false (by omega)).symm
    · rw [show c.shared.mutex.bLocked = true from h.1] at h
      cases h.2
    · cases h.1

/-- **One step** keeps the assertions of all tasks. -/
theorem MutexStep.spec (hid : Function.Injective id) (hval : ∀ u, id u ≠ taskInvalidId) (ho : GuardsShallow tr c t e)
    (hn : MutexStep id t c.shared (c.locals t) e s l) : MutexCorrect tr t c.shared (c.locals t) e s ∧
    ∃ o', MutexShared v o' (tr ++ [(t, e)]) s ∧ MutexPlace id o' (tr ++ [(t, e)]) t s l ∧
      ∀ u, u ≠ t → MutexPlace id o' (tr ++ [(t, e)]) u s (c.locals u) := by
  generalize hl : c.locals t = x at hn
  have hpt := hp t
  rw [hl] at hpt
  cases hn with
  | lock =>
    refine ⟨.quiet rfl nofun, o, ?_⟩
    rcases hpt with ⟨ho', ⟨h1, h2, h3, h4⟩, hk⟩ | ⟨ho', hd, _, ht⟩
    · exact held_step hg hp ho' (hg.held ho') rfl nofun ⟨h1, ho.2 rfl, h3, h4⟩ fun w hw =>
        ⟨(hk w hw).1, (hk w hw).2.1, fun q hq hun => by cases hq; exact hun.elim⟩
    · exact free_step hg hp ho' rfl nofun hd trivial ht
  | @unlock tmp =>
    refine ⟨.quiet rfl nofun, o, ?_⟩
    rcases hpt with ⟨ho', hh, hk⟩ | ⟨ho', hd, _, ht⟩
    · refine held_step hg hp ho' (hg.held ho') rfl nofun hh fun w hw =>
        ⟨(hk w hw).1, (hk w hw).2.1, fun q hq _ => ?_⟩
      refine Nat.succ_le_of_lt (Nat.lt_of_not_le fun hle => ?_)
      have htmp := ho.1 hle
      rw [hl] at htmp
      rw [show tmp = none from htmp] at hw
      cases hw
    · exact free_step hg hp ho' rfl nofun hd trivial ht
  | access ha => exact hl ▸ access_step hg hp hid hval hl ha
  | ret ha => exact hl ▸ ret_step hg hp hid hval hl ha
  | load =>
    refine ⟨.quiet rfl nofun, o, ?_⟩
    rcases hpt with ⟨ho', hh, _⟩ | ⟨_, hd, _, _⟩
    · exact held_step hg hp ho' (hg.held ho') rfl nofun hh fun w hw =>
        ⟨(Option.some.inj hw).symm, hh.1, nofun⟩
    · exact absurd hd (Nat.ne_of_gt ho.1)
  | @store w f =>
    refine ⟨.quiet rfl nofun, o, ?_⟩
    rcases hpt with ⟨ho', hh, hk⟩ | ⟨_, _, _, ht⟩
    · refine ⟨⟨hg.locked, hg.idle, ?_⟩, ?_, fun u hu => (hp u).other hu (Or.inl ho') (Or.inl rfl)⟩
      · -- the counter has not changed since it was read
        rw [updates_snoc, List.foldl_append, ← hg.count, (hk w rfl).1]
        rfl
      · rw [MutexPlace, depth_self]
        exact Or.inl ⟨ho', hh, nofun⟩
    · cases ht

omit hg hp in
/-- the assertions of all tasks, wherever a run is -/
theorem mutex_places (hid : Function.Injective id) (hval : ∀ u, id u ≠ taskInvalidId)
    (hr : Threads.Run (MutexStep id) GuardsShallow (mutexStart v) tr c) :
    ∃ o, MutexShared v o tr c.shared ∧ ∀ t, MutexPlace id o tr t c.shared (c.locals t) :=
  hr.invariant (G := MutexShared v) (P := MutexPlace id) (a := none) ⟨rfl, fun _ => rfl, rfl⟩
    (fun t => Or.inr ⟨nofun, rfl, show FreePc none from trivial, rfl⟩)
    fun hg hp ho hn => (MutexStep.spec hg hp hid hval ho hn).2

end

/-- a task that holds the mutex is its owner, and inside a call it knows what `Held` says -/
theorem MutexPlace.owner {o : Option T} {tr : List (T × MutexEvent V)} {t : T} {s : Guarded V} {l : MutexTask V}
    (h : MutexPlace id o tr t s l) (hd : 0 < depth tr t) : o = some t ∧ Held (id t) (depth tr t) s.mutex l.pc := by
  rcases h with ⟨ho, hh, _⟩ | ⟨_, hz, _⟩
  · exact ⟨ho, hh⟩
  · exact absurd hz (Nat.ne_of_gt hd)

/-! ## the ends of the calls -/

/-- the last call that the task began is `a`, and it has made `k` accesses in it -/
def InCall (tr : List (T × MutexEvent V)) (t : T) (a : MutexEvent V) (k : Nat) : Prop :=
  ∃ es, own t tr = es ++ a :: List.replicate k .access

theorem InCall.other {tr : List (T × MutexEvent V)} {t u : T} {e a : MutexEvent V} {k : Nat} (hne : u ≠ t)
    (h : InCall (tr ++ [(t, e)]) u a k) : InCall tr u a k := by
  obtain ⟨es, h⟩ := h
  exact ⟨es, (own_other tr e hne).symm.trans h⟩

theorem InCall.self {tr : List (T × MutexEvent V)} {t : T} {e a : MutexEvent V} {k : Nat}
    (h : InCall (tr ++ [(t, e)]) t a k) : k = 0 ∧ e = a ∨ ∃ j, k = j + 1 ∧ e = .access ∧ InCall tr t a j := by
  obtain ⟨es, h⟩ := h
  rw [own_self] at h
  cases k with
  | zero => exact Or.inl ⟨rfl, List.singleton_inj.mp (List.append_inj' h rfl).2⟩
  | succ j =>
    have hsnoc : es ++ a :: List.replicate (j + 1) .access = (es ++ a :: List.replicate j .access) ++ [.access] := by
      rw [List.replicate_succ', List.append_assoc, List.cons_append]
    rw [hsnoc] at h
    obtain ⟨h1, h2⟩ := List.append_inj' h rfl
    exact Or.inr ⟨j, rfl, List.singleton_inj.mp h2, es, h1⟩

/-- where a task is in its call: an unlock is not far from its end, and neither is a lock of a task that holds the mutex -/
def CallPlace (tr : List (T × MutexEvent V)) (t : T) (l : MutexTask V) : Prop :=
  (∀ k, InCall tr t .unlock k → ∃ pc, l.pc = some pc ∧ pc.unlocking ∧ k + pc.left ≤ 6) ∧
  ∀ k, InCall tr t .lock k → 0 < depth tr t → ∃ pc, l.pc = some pc ∧ ¬ pc.unlocking ∧ k + pc.left ≤ 4

section
variable {v : V} {tr : List (T × MutexEvent V)} {c : Config T (Guarded V) (MutexTask V)} {t : T} {e : MutexEvent V}
  {s : Guarded V} {l : MutexTask V} (hid : Function.Injective id) (hval : ∀ u, id u ≠ taskInvalidId)
include hid hval

/-- one step of a task in its call -/
theorem MutexStep.call (hr : Threads.Run (MutexStep id) GuardsShallow (mutexStart v) tr c)
    (hn : MutexStep id t c.shared (c.locals t) e s l) (h : CallPlace tr t (c.locals t)) : CallPlace (tr ++ [(t, e)]) t l := by
  obtain ⟨o, hg, hp⟩ := mutex_places hid hval hr
  refine ⟨fun k hk => ?_, fun k hk hd => ?_⟩
  · rcases hk.self with ⟨rfl, rfl⟩ | ⟨j, rfl, rfl, hj⟩
    · generalize c.locals t = x at hn
      cases hn
      exact ⟨.unlockLocked, rfl, trivial, Nat.le_refl 6⟩
    · obtain ⟨pc, hpc, hu, hle⟩ := h.1 j hj
      generalize c.locals t = x at hn hpc
      cases hn with
      | access ha =>
        obtain rfl := Option.some.inj hpc
        have hleft := unlock_left hu ha
        exact ⟨_, rfl, (access_unlocking ha).mpr hu, by omega⟩
  · rw [depth_self] at hd
    rcases hk.self with ⟨rfl, rfl⟩ | ⟨j, rfl, rfl, hj⟩
    · generalize c.locals t = x at hn
      cases hn
      exact ⟨.lockCas, rfl, not_false, Nat.le_refl 4⟩
    · -- the depth is the same all through the call
      have hd' : 0 < depth tr t := hd
      obtain ⟨pc, hpc, hu, hle⟩ := h.2 j hj hd'
      obtain ⟨ho, hh⟩ := (hp t).owner hd'
      rw [hpc] at hh
      generalize c.locals t = x at hn hpc
      cases hn with
      | access ha =>
        obtain rfl := Option.some.inj hpc
        have hleft := lock_left hh (hg.held ho) hu ha
        exact ⟨_, rfl, fun hu' => hu ((access_unlocking ha).mp hu'), by omega⟩

theorem mutex_calls (hr : Threads.Run (MutexStep id) GuardsShallow (mutexStart v) tr c) :
    ∀ t, CallPlace tr t (c.locals t) := by
  induction hr with
  | init => exact fun t => ⟨fun k ⟨es, h⟩ => by simp [own] at h, fun k ⟨es, h⟩ => by simp [own] at h⟩
  | @step tr c t e s l hr _ hn ih =>
    intro u
    by_cases hu : u = t
    · rw [hu, Config.step_self]
      exact hn.call hid hval hr (ih t)
    · rw [Config.step_other c s l hu]
      refine ⟨fun k hk => (ih u).1 k (hk.other hu), fun k hk hd => ?_⟩
      rw [depth_other tr e hu] at hd
      exact (ih u).2 k (hk.other hu) hd

end

variable (id) in
/-- A call that has made `k` accesses can make one more, and returns `r` with its access number `n` at the latest. -/
def EndsBy (t : T) (s : Guarded V) (l : MutexTask V) (k n : Nat) (r : Ret) : Prop :=
  k < n ∧ (∃ e s' l', MutexStep id t s l e s' l') ∧
    ∀ e s' l', MutexStep id t s l e s' l' → e = .ret r ∨ e = .access ∧ k + 1 < n

/-- an unlock returns from an unlock -/
theorem MutexStep.ret_iff {t : T} {s s' : Guarded V} {l l' : MutexTask V} {r : Ret} {pc : Pc}
    (h : MutexStep id t s l (.ret r) s' l') (hl : l.pc = some pc) : pc.unlocking ↔ ∃ b, r = .unlocked b := by
  cases h with
  | ret ha =>
    obtain rfl := Option.some.inj hl
    exact ret_unlocking ha

theorem EndsBy.of_left {t : T} {s : Guarded V} {l : MutexTask V} {k n : Nat} {r : Ret} {pc : Pc} (hl : l.pc = some pc)
    (hle : k + pc.left ≤ n)
    (hleft : ∀ m pc', ckRecursiveMutex (id t) s.mutex pc = (m, .inl pc') → pc'.left < pc.left)
    (hret : ∀ r' s' l', MutexStep id t s l (.ret r') s' l' → r' = r) : EndsBy id t s l k n r := by
  have hpos := pc.left_pos
  obtain ⟨q, tmp⟩ := l
  obtain rfl : q = some pc := hl
  refine ⟨by omega, ?_, fun e s' l' hn => ?_⟩
  · cases hc : ckRecursiveMutex (id t) s.mutex pc with
    | mk m x =>
      cases x with
      | inl pc' => exact ⟨_, _, _, .access hc⟩
      | inr r' => exact ⟨_, _, _, .ret hc⟩
  · cases hn with
    | @access _ _ m pc' ha =>
      have hlt := hleft m pc' ha
      have hpos' := pc'.left_pos
      exact Or.inr ⟨rfl, by omega⟩
    | ret ha => exact Or.inl (congrArg _ (hret _ _ _ (.ret ha)))

section
variable {v : V} {tr : List (T × MutexEvent V)} {c : Config T (Guarded V) (MutexTask V)}

/-- **The recursive mutex excludes and counts correctly**: at every interleaving at most one task is between a
lock that has returned and its last unlock, no update of the counter is lost, a lock returns the new nesting
depth, and an unlock returns `true` to the task that holds the mutex, which it releases at depth 1, and `false`
to every other one.  An unlock returns with its sixth access at the latest, and a lock of the task that holds the
mutex with its fourth one. -/
theorem mutex_excludes (hid : Function.Injective id) (hval : ∀ u, id u ≠ taskInvalidId)
    (hr : Threads.Run (MutexStep id) GuardsShallow (mutexStart v) tr c) :
    (∀ t u, 0 < depth tr t → 0 < depth tr u → t = u) ∧
    c.shared.count = (updates tr).foldl (fun n f => f n) v ∧
    (∀ t e s l, GuardsShallow tr c t e → MutexStep id t c.shared (c.locals t) e s l →
      MutexCorrect tr t c.shared (c.locals t) e s) ∧
    ∀ t k, (InCall tr t .unlock k →
        EndsBy id t c.shared (c.locals t) k 6 (.unlocked (decide (0 < depth tr t)))) ∧
      (InCall tr t .lock k → 0 < depth tr t →
        EndsBy id t c.shared (c.locals t) k 4 (.locked (depth tr t + 1))) := by
  obtain ⟨o, hg, hp⟩ := mutex_places hid hval hr
  have howner : ∀ t, 0 < depth tr t → o = some t := fun t ht => ((hp t).owner ht).1
  have hcorrect : ∀ t e s l, GuardsShallow tr c t e → MutexStep id t c.shared (c.locals t) e s l →
      MutexCorrect tr t c.shared (c.locals t) e s := fun t e s l ho hn => (MutexStep.spec hg hp hid hval ho hn).1
  refine ⟨fun t u ht hu => Option.some.inj ((howner t ht).symm.trans (howner u hu)), hg.count, hcorrect,
    fun t k => ⟨fun hk => ?_, fun hk hd => ?_⟩⟩
  · obtain ⟨pc, hpc, hu, hle⟩ := (mutex_calls hid hval hr t).1 k hk
    refine .of_left hpc hle (fun m pc' ha => unlock_left hu ha) fun r s' l' hn => ?_
    have hspec := hcorrect t (.ret r) s' l' ⟨trivial, nofun⟩ hn
    obtain ⟨b, rfl⟩ := (hn.ret_iff hpc).mp hu
    rw [hspec.unlocked b rfl]
  · obtain ⟨pc, hpc, hu, hle⟩ := (mutex_calls hid hval hr t).2 k hk hd
    obtain ⟨ho, hh⟩ := (hp t).owner hd
    rw [hpc] at hh
    refine .of_left hpc hle (fun m pc' ha => lock_left hh (hg.held ho) hu ha) fun r s' l' hn => ?_
    have hspec := hcorrect t (.ret r) s' l' ⟨trivial, nofun⟩ hn
    cases r with
    | locked n => rw [hspec.locked n rfl]
    | unlocked b => exact absurd ((hn.ret_iff hpc).mpr ⟨b, rfl⟩) hu

end

end

/-- One task locks the mutex while another one waits for it.  It unlocks the mutex again, which returns `true`
with the sixth access. -/
theorem mutex_excludes_two : ∃ (tr tr' : List (Bool × MutexEvent Nat)) (c c' c'' : _),
    Threads.Run (MutexStep fun b : Bool => cond b 1 0) GuardsShallow (mutexStart 0) tr c ∧ depth tr true = 1 ∧
    (c.locals false).pc = some .lockSpin ∧ depth tr false = 0 ∧
    Threads.Run (MutexStep fun b : Bool => cond b 1 0) GuardsShallow (mutexStart 0) tr' c' ∧ InCall tr' true .unlock 5 ∧
    (∀ e s l, MutexStep (fun b : Bool => cond b 1 0) true c'.shared (c'.locals true) e s l →
      e = .ret (.unlocked true)) ∧
    Threads.Run (MutexStep fun b : Bool => cond b 1 0) GuardsShallow (mutexStart 0)
      (tr' ++ [(true, .ret (.unlocked true))]) c'' ∧ c''.shared.mutex.bLocked = false := by
  have hid : Function.Injective fun b : Bool => cond b 1 0 := fun a b h => by
    cases a <;> cases b <;> first | rfl | cases h
  have hval : ∀ b : Bool, cond b 1 0 ≠ taskInvalidId := by decide
  have hlock : ∀ (tr : List (Bool × MutexEvent Nat)) c t, depth tr t = 0 → GuardsShallow tr c t .lock :=
    fun tr c t h => ⟨trivial, fun _ => by rw [h]; decide⟩
  have hunlock : ∀ (tr : List (Bool × MutexEvent Nat)) (c : Config Bool (Guarded Nat) (MutexTask Nat)) t,
      (c.locals t).tmp = none → GuardsShallow tr c t .unlock := fun tr c t h => ⟨fun _ => h, nofun⟩
  have haccess : ∀ (tr : List (Bool × MutexEvent Nat)) c t, GuardsShallow tr c t .access :=
    fun tr c t => ⟨trivial, nofun⟩
  have hret : ∀ (tr : List (Bool × MutexEvent Nat)) c t r, GuardsShallow tr c t (.ret r) :=
    fun tr c t r => ⟨trivial, nofun⟩
  have r₀ : Threads.Run (MutexStep fun b : Bool => cond b 1 0) GuardsShallow (mutexStart 0) [] (mutexStart 0) := .init
  have r₁ := r₀.step (hlock _ _ true rfl) .lock
  have r₂ := r₁.step (hlock _ _ false rfl) .lock
  have r₃ := r₂.step (haccess _ _ true) (.access rfl)
  have r₄ := r₃.step (haccess _ _ false) (.access rfl)
  have r₅ := r₄.step (haccess _ _ true) (.access rfl)
  have r₆ := r₅.step (haccess _ _ false) (.access rfl)
  have r₇ := r₆.step (hret _ _ true (.locked 1)) (.ret rfl)
  have r₈ := r₇.step (hunlock _ _ true rfl) .unlock
  have r₉ := r₈.step (haccess _ _ true) (.access rfl)
  have r₁₀ := r₉.step (haccess _ _ true) (.access rfl)
  have r₁₁ := r₁₀.step (haccess _ _ true) (.access rfl)
  have r₁₂ := r₁₁.step (haccess _ _ true) (.access rfl)
  have r₁₃ := r₁₂.step (haccess _ _ true) (.access rfl)
  have r₁₄ := r₁₃.step (hret _ _ true (.unlocked true)) (.ret rfl)
  refine ⟨_, _, _, _, _, r₇, rfl, rfl, ?_, r₁₃,
    ⟨[.lock, .access, .access, .ret (.locked 1)], rfl⟩, ?_, r₁₄, rfl⟩
  · have hone := (mutex_excludes hid hval r₇).1 true false
    exact Nat.eq_zero_of_not_pos fun h => nomatch hone (by decide) h
  · intro e s l hn
    have hends := ((mutex_excludes hid hval r₁₃).2.2.2 true 5).1 ⟨[.lock, .access, .access, .ret (.locked 1)], rfl⟩
    rcases hends.2.2 e s l hn with he | ⟨_, h⟩
    · exact he
    · exact absurd h (by decide)

/-! ## deep nesting -/

section
variable {V : Type}

/-- the state of the only task there is -/
def solo (s : Guarded V) (l : MutexTask V) : Config Unit (Guarded V) (MutexTask V) := ⟨s, fun _ => l⟩

theorem solo_step {c₀ : Config Unit (Guarded V) (MutexTask V)} {tr : List (Unit × MutexEvent V)} {s s' : Guarded V}
    {l l' : MutexTask V} {e : MutexEvent V} (hr : Threads.Run (MutexStep fun _ => 0) Guards c₀ tr (solo s l))
    (ho : Guards tr (solo s l) () e) (hn : MutexStep (fun _ => 0) () s l e s' l') :
    Threads.Run (MutexStep fun _ => 0) Guards c₀ (tr ++ [((), e)]) (solo s' l') := hr.step ho hn

/-- a task that holds the mutex locks it once more -/
theorem relock {c₀ : Config Unit (Guarded V) (MutexTask V)} {tr : List (Unit × MutexEvent V)} {n : Nat} {v : V}
    (hr : Threads.Run (MutexStep fun _ => 0) Guards c₀ tr (solo ⟨⟨0, n, true⟩, v⟩ ⟨none, none⟩)) :
    ∃ tr', depth tr' () = depth tr () ∧
      Threads.Run (MutexStep fun _ => 0) Guards c₀ tr' (solo ⟨⟨0, n, true⟩, v⟩ ⟨some (.lockStore n), none⟩) := by
  have r₁ := solo_step hr (e := .lock) trivial .lock
  have r₂ := solo_step r₁ (e := .access) trivial (.access rfl)
  have r₃ := solo_step r₂ (e := .access) trivial (.access rfl)
  have r₄ := solo_step r₃ (e := .access) trivial (.access rfl)
  refine ⟨_, ?_, r₄⟩
  simp only [depth_self, nest]

theorem nested (v : V) (n : Nat) : ∃ tr, depth tr () = n + 1 ∧
    Threads.Run (MutexStep fun _ => 0) Guards (mutexStart v) tr (solo ⟨⟨0, u32 (n + 1), true⟩, v⟩ ⟨none, none⟩) := by
  induction n with
  | zero =>
    have r₀ : Threads.Run (MutexStep fun _ => 0) Guards (mutexStart v) []
      (solo ⟨ckRecursiveMutexInit, v⟩ ⟨none, none⟩) := .init
    have r₁ := solo_step r₀ (e := .lock) trivial .lock
    have r₂ := solo_step r₁ (e := .access) trivial (.access rfl)
    have r₃ := solo_step r₂ (e := .access) trivial (.access rfl)
    have r₄ := solo_step r₃ (e := .ret (.locked 1)) trivial (.ret rfl)
    exact ⟨_, rfl, r₄⟩
  | succ n ih =>
    obtain ⟨tr, hd, hr⟩ := ih
    obtain ⟨tr', hd', hr'⟩ := relock hr
    have r := solo_step hr' (e := .ret (.locked (u32 (u32 (n + 1) + 1)))) trivial (.ret rfl)
    rw [u32_succ] at r
    refine ⟨_, ?_, r⟩
    rw [depth_self, nest, hd', hd]

end

/-- **The `2^32`-th nested lock returns `0`**, as if the mutex were not locked at all. -/
theorem lock_wraps : ∃ (tr : List (Unit × MutexEvent Nat)) (c : _) (s : _) (l : _),
    Threads.Run (MutexStep fun _ => 0) Guards (mutexStart 0) tr c ∧ depth tr () + 1 = 2^32 ∧
    MutexStep (fun _ => 0) () c.shared (c.locals ()) (.ret (.locked 0)) s l := by
  obtain ⟨n, hn⟩ : ∃ n, n + 1 + 1 = 2^32 := ⟨2^32 - 2, rfl⟩
  obtain ⟨tr, hd, hr⟩ := nested 0 n
  obtain ⟨tr', hd', hr'⟩ := relock hr
  have hzero : u32 (u32 (n + 1) + 1) = 0 := by
    rw [u32_succ, hn]
    exact Nat.mod_self _
  have hret : MutexStep (fun _ : Unit => 0) () (⟨⟨0, u32 (n + 1), true⟩, 0⟩ : Guarded Nat)
      ⟨some (.lockStore (u32 (n + 1))), none⟩ (.ret (.locked (u32 (u32 (n + 1) + 1))))
      ⟨⟨0, u32 (u32 (n + 1) + 1), true⟩, 0⟩ ⟨none, none⟩ := .ret rfl
  rw [hzero] at hret
  exact ⟨tr', _, _, _, hr', by rw [hd', hd, hn], hret⟩

end Clubcos
