import Clubcos.Lib.Machine
import Clubcos.Lib.Tally
import Clubcos.Task.Clock

/-!
# The time that processes have used

A tick of the timer counts for the process of the current task.  It is charged when another task gets the processor; a
thread that has left its process by then is charged nowhere.

* `Meter`            the ticks of a run, whose they were, and the ones that are charged nowhere;
* `TimeInv.call`     the books of `Tally` stay balanced, call by call;
* `time_conserved`   **the ticks of a run**;
* `tick_lost`        a thread that runs for one tick and terminates itself.
-/

set_option linter.unusedVariables false
set_option linter.unusedSectionVars false

namespace Clubcos
open Word

/-! ## runs with a meter -/

/-- what is noted beside a run -/
structure Meter where
  ticks : Nat
  /-- the process of the current task at each tick -/
  ran : List ProcPtr
  /-- the ticks that no process is charged for, with the process of the thread -/
  lost : List ProcPtr
  created : List ProcPtr

def Meter.zero : Meter := ⟨0, [], [], [kernelProcess]⟩

/-- the last quantum of a thread that terminates itself and is not the main thread of its process -/
def lostBy (s : TaskStruct) (op : Op) : List ProcPtr :=
  if endedBy s op = some s.pNow ∧ mainOf s s.pNow = none then
    (s.owner s.pNow).elim [] fun p => List.replicate (taskQuantum - s.remainQuantum) p
  else []

/-- the meter after a call made in the state `s` -/
def Meter.step (m : Meter) (s : TaskStruct) (op : Op) : Meter where
  ticks := m.ticks + if op.isTick then 1 else 0
  ran := m.ran ++ if op.isTick then (s.owner s.pNow).toList else []
  lost := m.lost ++ lostBy s op
  created := m.created ++ (openedBy s op).toList

/-- the runs whose calls are all made in a state with `ok`, with their meters -/
inductive TimeRun (finit : FpuContext) (ok : TaskStruct → Op → Prop) : TaskStruct → Meter → Prop
  | boot (fpu mem) : TimeRun finit ok (ckTaskStructInitialize fpu mem) .zero
  | call {s m op hw s'} : TimeRun finit ok s m → ok s op → exec finit hw s op = some s' →
      TimeRun finit ok s' (m.step s op)

def book (s : TaskStruct) (m : Meter) : Tally.Book ProcPtr where
  accounts := m.created
  used q := (s.processes q).usedCpuTime
  owner := s.owner s.pNow
  pending := taskQuantum - s.remainQuantum
  ran := m.ran
  lost := m.lost

structure TimeInv (s : TaskStruct) (m : Meter) : Prop where
  inv : TaskInv s
  kernel : (s.tasks kernelTask).waitObj = none
  quantum : 1 ≤ s.remainQuantum ∧ s.remainQuantum ≤ taskQuantum
  created : ∀ q, q ∈ m.created ↔ (s.processes q).pageDirectory ≠ 0
  process : ∀ t p, (s.tasks t).Live → s.owner t = some p → (s.processes p).pageDirectory ≠ 0
  balanced : Tally.Balanced (2^32) (book s m)
  ticks : m.ran.length = m.ticks

section
variable {s : TaskStruct} {m : Meter} (hi : TimeInv s m)
include hi

/-- one of the kernel and the idle task does not run, and is READY -/
theorem TimeInv.someReady : SomeReady s := by
  have hslot := hi.inv.1.toSlotInv
  have hk := hslot.live kernelTask hslot.kernel
  have hidle := hslot.live idleTask hslot.idle.1
  cases hf : (s.tasks kernelTask).flag with
  | ready => exact ⟨kernelTask, _, place_ready hk.1 hf⟩
  | running =>
    have hready : (s.tasks idleTask).flag = .ready := by
      refine hslot.idle.2.resolve_right fun h => ?_
      have e := (hslot.single _ hk.1 hf).trans (hslot.single _ hidle.1 h).symm
      exact absurd e (by decide)
    exact ⟨idleTask, _, place_ready hidle.1 hready⟩
  | wait => exact absurd hi.kernel (hslot.waiting _ hk.1 hf)
  | waitForExit => exact absurd hf hk.2

end

/-- the current task has a process -/
theorem current_owner {s : TaskStruct} {created : List ProcPtr} (hi : TaskInv s)
    (hcreated : ∀ q, q ∈ created ↔ (s.processes q).pageDirectory ≠ 0)
    (hprocess : ∀ t p, (s.tasks t).Live → s.owner t = some p → (s.processes p).pageDirectory ≠ 0) :
    ∃ p ∈ created, s.owner s.pNow = some p := by
  obtain ⟨p, hp⟩ := Option.ne_none_iff_exists'.mp (hi.1.proc s.pNow hi.now_live)
  exact ⟨p, (hcreated p).mpr (hprocess _ p hi.now_live hp), hp⟩

theorem TimeInv.owner {s : TaskStruct} {m : Meter} (hi : TimeInv s m) : ∃ p ∈ m.created, s.owner s.pNow = some p :=
  current_owner hi.inv hi.created hi.process

theorem Op.isTick_iff {op : Op} : op.isTick = true ↔ op = .timerInt := by
  cases op <;> simp [Op.isTick]

/-- the quantum used so far, as the counters have it -/
theorem sub32_quantum {r : Nat} (h : r ≤ taskQuantum) : sub32 taskQuantum r = taskQuantum - r := by
  apply sub32_of_le h
  decide

theorem payer_eq {s : TaskStruct} {op : Op} (h : ¬ (endedBy s op = some s.pNow ∧ mainOf s s.pNow = none)) :
    payer s op = s.owner s.pNow := by
  unfold payer
  by_cases hend : endedBy s op = some s.pNow
  · rw [if_pos hend]
    obtain ⟨p, hp⟩ := Option.ne_none_iff_exists'.mp fun hmain => h ⟨hend, hmain⟩
    rw [hp]
    exact (Option.filter_eq_some_iff.mp hp).1.symm
  · rw [if_neg hend]

section
variable {s s' : TaskStruct} {op : Op} {m : Meter} (hi : TimeInv s m) (he : Effect s op s')
include hi he

theorem TimeInv.created_step (hdir : op.HasDirectory) (q : ProcPtr) :
    q ∈ (m.step s op).created ↔ (s'.processes q).pageDirectory ≠ 0 := by
  have hmem : q ∈ (m.step s op).created ↔ q ∈ m.created ∨ openedBy s op = some q := by
    simp [Meter.step]
  rw [hmem, hi.created]
  by_cases h : openedBy s op = some q
  · obtain ⟨⟨j, q'⟩, hf, rfl⟩ := Option.map_eq_some_iff.mp h
    exact iff_of_true (Or.inr h) (he.directory hdir j q' hf)
  · have hsame := (he.process q fun j hf => h (by simp [openedBy, hf])).1
    rw [hsame]
    simp [h]

theorem TimeInv.process_step (hi' : TaskInv s') (hdir : op.HasDirectory) (t : TaskPtr) (p : ProcPtr)
    (ht : (s'.tasks t).Live) (hp : s'.owner t = some p) : (s'.processes p).pageDirectory ≠ 0 := by
  have hkept : (s.processes p).pageDirectory ≠ 0 → (s'.processes p).pageDirectory ≠ 0 := fun h =>
    (hi.created_step he hdir p).mp (List.mem_append_left _ ((hi.created p).mpr h))
  by_cases hs : ∃ i, startedBy s op = some (i, t)
  · obtain ⟨i, hs⟩ := hs
    obtain ⟨p', hp', hfrom⟩ := he.ownerNew i t hs
    obtain rfl : p' = p := Option.some.inj (hp'.symm.trans hp)
    rcases hfrom with ⟨j, hf⟩ | ⟨_, hv⟩
    · exact he.directory hdir j p' hf
    · exact hkept hv.1
  · have hs : ∀ i, startedBy s op ≠ some (i, t) := fun i h => hs ⟨i, h⟩
    obtain ⟨hlive, hend⟩ := ((he.live t).mp ht).resolve_right fun ⟨i, h⟩ => hs i h
    have howner := he.owner t hs
    rw [if_neg hend] at howner
    exact hkept (hi.process t p hlive (howner.symm.trans hp))

/-- as long as the current task stays, its process does -/
theorem TimeInv.owner_step (hnow : s'.pNow = s.pNow) (hend : endedBy s op ≠ some s.pNow) :
    s'.owner s'.pNow = s.owner s.pNow := by
  have hs : ∀ i, startedBy s op ≠ some (i, s.pNow) := fun i h => hi.inv.2.1 (he.started i _ h).1
  have howner := he.owner s.pNow hs
  rw [if_neg hend] at howner
  rw [hnow]
  exact howner

/-- **The books stay balanced**, whatever the call does. -/
theorem TimeInv.balanced_step (hi' : TaskInv s') (hdir : op.HasDirectory) (hc : Clock s op s') :
    Tally.Balanced (2^32) (book s' (m.step s op)) := by
  obtain ⟨next, hnext, howner'⟩ := current_owner hi' (hi.created_step he hdir) (hi.process_step he hi' hdir)
  cases hc with
  | stay htick hend hnow hremain hused =>
    have howner := hi.owner_step he hnow hend
    have hlost : lostBy s op = [] := if_neg fun h => hend h.1
    cases hopen : openedBy s op with
    | none =>
      have hbook : book s' (m.step s op) = book s m := by
        apply Tally.Book.ext <;> simp [book, Meter.step, htick, hlost, hopen, hremain, howner, hused]
      rw [hbook]
      exact hi.balanced
    | some q =>
      have hnew : q ∉ (book s m).accounts := by
        obtain ⟨⟨j, q'⟩, hf, rfl⟩ := Option.map_eq_some_iff.mp hopen
        exact fun h => (hi.created q').mp h (he.founded j q' hf).1
      have hbook : book s' (m.step s op) =
          { book s m with accounts := m.created ++ [q], used := Function.update (book s m).used q 0 } := by
        apply Tally.Book.ext <;> simp [book, Meter.step, htick, hlost, hopen, hremain, howner]
        funext k
        rw [hused, hopen, Function.update_apply]
        simp only [Option.some.injEq, eq_comm]
      rw [hbook]
      exact hi.balanced.open_new hnew
  | switched htick hopen hhand =>
    have hused := hhand.used
    rw [sub32_quantum hi.quantum.2] at hused
    have hnext : next ∈ m.created := by simpa [Meter.step, hopen] using hnext
    by_cases h : endedBy s op = some s.pNow ∧ mainOf s s.pNow = none
    -- the thread has left its process: nobody is charged
    · obtain ⟨p, _, howner⟩ := hi.owner
      have hpayer : payer s op = none := (if_pos h.1).trans h.2
      have hlost : lostBy s op = List.replicate (taskQuantum - s.remainQuantum) p := by
        unfold lostBy
        rw [if_pos h, howner]
        rfl
      have hbook : book s' (m.step s op) = { book s m with
          owner := some next, pending := 0, lost := m.lost ++ List.replicate (book s m).pending p } := by
        apply Tally.Book.ext <;> simp [book, Meter.step, htick, hlost, hopen, hhand.remain, howner', hused, hpayer]
      rw [hbook]
      exact hi.balanced.waive howner hnext
    · have hlost : lostBy s op = [] := if_neg h
      have hbook : book s' (m.step s op) = { book s m with
          used := fun q => (s'.processes q).usedCpuTime, owner := some next, pending := 0 } := by
        apply Tally.Book.ext <;> simp [book, Meter.step, htick, hlost, hopen, hhand.remain, howner']
      rw [hbook]
      rw [payer_eq h] at hused
      exact hi.balanced.hand hnext hused
  | tick htick hnow hpos hremain hused =>
    obtain rfl := Op.isTick_iff.mp htick
    obtain ⟨p, _, howner⟩ := hi.owner
    have hsame := hi.owner_step he hnow nofun
    have hpending : taskQuantum - s'.remainQuantum = taskQuantum - s.remainQuantum + 1 := by
      have := hi.quantum
      omega
    have hbook : book s' (m.step s .timerInt) =
        { book s m with pending := (book s m).pending + 1, ran := m.ran ++ [p] } := by
      apply Tally.Book.ext <;>
        simp [book, Meter.step, Op.isTick, openedBy, foundedBy, lostBy, endedBy, hsame, howner, hpending, hused]
    rw [hbook]
    exact hi.balanced.work howner
  | lastTick htick hremain hhand =>
    obtain rfl := Op.isTick_iff.mp htick
    obtain ⟨p, _, howner⟩ := hi.owner
    have hused := hhand.used
    have hnext : next ∈ m.created := by simpa [Meter.step, openedBy, foundedBy] using hnext
    have hwork := hi.balanced.work howner
    have hbook : book s' (m.step s .timerInt) = { book s m with
        ran := m.ran ++ [p], used := fun q => (s'.processes q).usedCpuTime, owner := some next, pending := 0 } := by
      apply Tally.Book.ext <;>
        simp [book, Meter.step, Op.isTick, openedBy, foundedBy, lostBy, endedBy, howner, howner', hhand.remain]
    rw [hbook]
    refine hwork.hand hnext fun q => ?_
    show (s'.processes q).usedCpuTime = if s.owner s.pNow = some q then
      ((s.processes q).usedCpuTime + (taskQuantum - s.remainQuantum + 1)) % 2^32 else (s.processes q).usedCpuTime
    rw [hused, hremain]
    show (if s.owner s.pNow = some q then u32 ((s.processes q).usedCpuTime + sub32 taskQuantum 0) else _) = _
    rw [sub32_quantum (Nat.zero_le _)]
    rfl

end

theorem TimeInv.boot (fpu : FpuContext) (mem : Nat → Nat) : TimeInv (ckTaskStructInitialize fpu mem) .zero := by
  have hi := boot_inv fpu mem
  have hdir := boot_directory fpu mem
  have hcreated : ∀ q, q ∈ Meter.zero.created ↔ ((ckTaskStructInitialize fpu mem).processes q).pageDirectory ≠ 0 :=
    fun q => List.mem_singleton.trans (hdir q).symm
  have howner : ∀ t p, ((ckTaskStructInitialize fpu mem).tasks t).pProcess = some p → p = kernelProcess := by
    intro t p hp
    rcases (boot_slot fpu mem t).2 with ⟨_, _, _, h⟩ | ⟨_, _, _, h, _⟩ | ⟨_, _, _, h⟩
    · exact Option.some.inj (hp.symm.trans h)
    · exact Option.some.inj (hp.symm.trans h)
    · cases h.symm.trans hp
  have hprocess : ∀ t p, ((ckTaskStructInitialize fpu mem).tasks t).Live →
      (ckTaskStructInitialize fpu mem).owner t = some p →
      ((ckTaskStructInitialize fpu mem).processes p).pageDirectory ≠ 0 :=
    fun t p _ hp => (hdir p).mpr (howner t p hp)
  refine ⟨hi, (boot_slot fpu mem kernelTask).1,
    (by decide : 1 ≤ taskQuantum ∧ taskQuantum ≤ taskQuantum), hcreated, hprocess, ?_, rfl⟩
  refine ⟨List.nodup_singleton _, current_owner hi hcreated hprocess, nofun, nofun, fun q hq => ?_⟩
  obtain rfl := List.mem_singleton.mp hq
  rfl

/-- **What a call does to the ticks and the charges.** -/
theorem TimeInv.call {finit : FpuContext} {hw : Bool} {s s' : TaskStruct} {op : Op} {m : Meter} (hi : TimeInv s m)
    (ho : op.Timed s) (h : exec finit hw s op = some s') : TimeInv s' (m.step s op) := by
  obtain ⟨hi', _⟩ := ho.1.step hi.inv h
  have he := exec_effect hi.inv ho.1 h
  have ht := exec_timing hi.inv hi' hi.someReady hi.quantum ho h
  refine ⟨hi', ht.kernel hi.kernel, ?_, hi.created_step he ho.2.1, hi.process_step he hi' ho.2.1,
    hi.balanced_step he hi' ho.2.1 ht.clock, ?_⟩
  · have hq := hi.quantum
    cases ht.clock with
    | stay _ _ _ hremain => rwa [hremain]
    | switched _ _ hhand => rw [hhand.remain]; decide
    | tick _ _ hpos hremain => omega
    | lastTick _ _ hhand => rw [hhand.remain]; decide
  · obtain ⟨p, _, howner⟩ := hi.owner
    show (m.ran ++ _).length = m.ticks + _
    rw [List.length_append, hi.ticks, howner]
    cases op.isTick <;> rfl

theorem TimeRun.inv {finit : FpuContext} {s : TaskStruct} {m : Meter} (hr : TimeRun finit Op.Timed s m) :
    TimeInv s m := by
  induction hr with
  | boot fpu mem => exact .boot fpu mem
  | call _ ho e ih => exact ih.call ho e

/-! ## conservation -/

/-- **CPU time is conserved**, up to the last quantum of the threads that have left their process: all the charges,
process by process, and the quantum at every moment. -/
theorem time_conserved {finit : FpuContext} {s : TaskStruct} {m : Meter} (hr : TimeRun finit Op.Timed s m) :
    m.created.Nodup ∧
    (m.created.map fun q => (s.processes q).usedCpuTime).sum + (taskQuantum - s.remainQuantum) + m.lost.length ≡
      m.ticks [MOD 2^32] ∧
    (∀ q ∈ m.created, (s.processes q).usedCpuTime +
        (if s.owner s.pNow = some q then taskQuantum - s.remainQuantum else 0) + m.lost.count q ≡
      m.ran.count q [MOD 2^32]) ∧
    1 ≤ s.remainQuantum ∧ s.remainQuantum ≤ taskQuantum := by
  have hi := hr.inv
  have htotal := hi.balanced.total
  rw [show (book s m).ran.length = m.ticks from hi.ticks] at htotal
  exact ⟨hi.balanced.nodup, htotal, hi.balanced.even, hi.quantum⟩

instance (s : TaskStruct) (op : Op) : Decidable (op.KernelRuns s) :=
  match op with
  | .taskJoin _ | .processJoin _ => inferInstanceAs (Decidable (s.pNow ≠ kernelTask))
  | .taskCreate .. | .processCreate .. | .schedule | .timerInt | .taskTerminate _ | .processTerminate _ | .taskResume _
  | .idleReap | .fpu _ | .write .. => instDecidableTrue

instance (s : TaskStruct) (op : Op) : Decidable (op.Timed s) := inferInstanceAs (Decidable (_ ∧ _ ∧ _))

/-- a call with the meter running -/
def timeStep (finit : FpuContext) (r : TaskStruct × Meter) (op : Op) : Option (TaskStruct × Meter) :=
  if op.Timed r.1 then (exec finit false r.1 op).map fun s' => (s', r.2.step r.1 op) else none

theorem timeStep_run {finit : FpuContext} {r r' : TaskStruct × Meter} {op : Op} (e : timeStep finit r op = some r')
    (hr : TimeRun finit Op.Timed r.1 r.2) : TimeRun finit Op.Timed r'.1 r'.2 := by
  unfold timeStep at e
  by_cases ho : op.Timed r.1
  · rw [if_pos ho] at e
    obtain ⟨s', h, rfl⟩ := Option.map_eq_some_iff.mp e
    exact hr.call ho h
  · rw [if_neg ho] at e
    cases e

/-- the calls `ops`, one after the other, from the start -/
def timeAll (finit : FpuContext) (ops : List Op) : Option (TaskStruct × Meter) :=
  Machine.replay (timeStep finit) ops (bootState, .zero)

theorem timeAll_run {finit : FpuContext} {ops : List Op} {r : TaskStruct × Meter} (e : timeAll finit ops = some r) :
    TimeRun finit Op.Timed r.1 r.2 :=
  Machine.replay_keeps (R := fun r => TimeRun finit Op.Timed r.1 r.2) (fun r op r' => timeStep_run) e
    (.boot 0 fun _ => 0)

/-- a thread of the kernel process gets the processor and keeps it for a tick -/
def tickRun : List Op := [.taskCreate 0 0 0 .normal, .schedule, .timerInt]

theorem tickRun_some : (timeAll 0 tickRun).isSome := by decide +kernel

def tickState : TaskStruct × Meter := (timeAll 0 tickRun).get tickRun_some

theorem tickState_run : TimeRun 0 Op.Timed tickState.1 tickState.2 :=
  timeAll_run (Option.some_get tickRun_some).symm

theorem time_conserved_tickState : tickState.2.ticks = 1 ∧ tickState.1.remainQuantum = 19 ∧
    (tickState.2.created.map fun q => (tickState.1.processes q).usedCpuTime).sum +
      (taskQuantum - tickState.1.remainQuantum) + tickState.2.lost.length ≡ tickState.2.ticks [MOD 2^32] :=
  ⟨by decide +kernel, by decide +kernel, (time_conserved tickState_run).2.1⟩

/-- the thread terminates itself -/
def lastTickRun : List Op := tickRun ++ [.taskTerminate 4098]

theorem lastTickRun_some : (timeAll 0 lastTickRun).isSome := by decide +kernel

def lastTickState : TaskStruct × Meter := (timeAll 0 lastTickRun).get lastTickRun_some

/-- **A tick that no process is charged for**: the thread has left its process when the next task gets the processor. -/
theorem tick_lost : TimeRun 0 Op.Timed lastTickState.1 lastTickState.2 ∧ lastTickState.2.ticks = 1 ∧
    lastTickState.2.ran = [kernelProcess] ∧
    ¬ (lastTickState.2.created.map fun q => (lastTickState.1.processes q).usedCpuTime).sum +
      (taskQuantum - lastTickState.1.remainQuantum) ≡ lastTickState.2.ticks [MOD 2^32] :=
  ⟨timeAll_run (Option.some_get lastTickRun_some).symm, by decide +kernel, by decide +kernel,
    by decide +kernel⟩

end Clubcos
