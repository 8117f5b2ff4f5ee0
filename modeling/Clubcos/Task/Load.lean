import Clubcos.Lib.Machine
import Clubcos.Task.Exit

/-!
# The processor load

The idle task compares two counters: `TickCountLow`, which counts every tick at once, and its own `UsedCpuTime`, to which the
ticks of a quantum are added when another task gets the processor.

* `csIdleTask`      the loop, one read, store or call a step;
* `LoadRun`         its runs, with ticks of the timer, with other tasks and with other interrupts between any two steps;
* `Books`           what has been charged since the last measurement, and what is still to be charged;
* `processorLoad_le`   **the load is a percentage**, in runs in which no quantum that is charged reaches over a measurement;
* `load_wraps`      a quantum that does.
-/

set_option linter.unusedVariables false

namespace Clubcos.Load
open Word

/-! ## the idle task -/

/-- what is to be done next: the reads before the loop, the reads and the store in it, and what follows -/
inductive Pc where
  | lastTick | lastIdle | readTick | readIdle | store | hlt40 | hlt80 | hlt95 | reap | print | schedule
  deriving DecidableEq

structure LoadState where
  sched : TaskStruct
  tickCountLow : Nat
  /-- `g_pTaskStruct->ProcessorLoad` -/
  processorLoad : Nat
  pc : Pc
  halted : Bool
  /-- the local variables -/
  lastTickCount : Nat
  lastIdleTime : Nat
  tickCount : Nat
  idleTime : Nat
  load : Nat

/-- `pTaskMe->UsedCpuTime` -/
def LoadState.used (l : LoadState) : Nat := (l.sched.tasks idleTask).usedCpuTime

def measuredLoad (diffTick diffIdleTime : Nat) : Nat :=
  if diffTick = 0 then 0 else sub32 100 (u32 (diffIdleTime * 100) / diffTick)

/-- a call of `ckTaskSchedule` -/
def LoadState.yields (l : LoadState) (hw : Bool) : Option LoadState :=
  (ckTaskSchedule_internal l.sched hw).map fun r => { l with sched := r.2 }

/-- `ckAsmHlt` below a bound -/
def LoadState.hlt (l : LoadState) (bound : Nat) (pc : Pc) : LoadState := { l with halted := decide (l.load < bound), pc := pc }

/-- one round of the loop over `WaitForExitList` -/
def LoadState.reaps (l : LoadState) : Option LoadState :=
  (popTask l.sched .waitForExit).bind fun
    | (none, s) => some { l with sched := s, pc := .print }
    | (some pTask, s) => (reap s pTask (s.tasks pTask).pProcess).map fun s => { l with sched := s }

/-- one step of the idle task, which has the processor -/
def csIdleTask (l : LoadState) (hw : Bool) : Option LoadState :=
  match l.pc with
  | .lastTick => some { l with lastTickCount := l.tickCountLow, pc := .lastIdle }
  | .lastIdle => some { l with lastIdleTime := l.used, pc := .readTick }
  | .readTick => some { l with tickCount := l.tickCountLow, pc := .readIdle }
  | .readIdle => some { l with idleTime := l.used, pc := .store }
  | .store =>
    let load := measuredLoad (sub32 l.tickCount l.lastTickCount) (sub32 l.idleTime l.lastIdleTime)
    some { l with load := load, processorLoad := load, lastTickCount := l.tickCount, lastIdleTime := l.idleTime, pc := .hlt40 }
  | .hlt40 => some (l.hlt 40 .hlt80)
  | .hlt80 => some (l.hlt 80 .hlt95)
  | .hlt95 => some (l.hlt 95 .reap)
  | .reap => l.reaps
  | .print => some { l with pc := .schedule }
  | .schedule => LoadState.yields { l with pc := .readTick } hw

/-- `t` ticks have been counted, and `r` are left of the quantum -/
def LoadState.counts (l : LoadState) (t r : Nat) : LoadState :=
  { l with tickCountLow := t, halted := false, sched := { l.sched with remainQuantum := r } }

/-- the count, and the quantum that the scheduler finds -/
def LoadState.ticked (l : LoadState) : LoadState :=
  l.counts (u32 (l.tickCountLow + 1)) (sub32 l.sched.remainQuantum 1)

def ck_TimerIntHandler (l : LoadState) (hw : Bool) : Option LoadState :=
  let l := { l with tickCountLow := u32 (l.tickCountLow + 1), halted := false }
  (ckTaskScheduleOnTimerInt l.sched hw).map fun s => { l with sched := s }

/-- What other tasks and interrupts do: the time of the idle task stays, and the quantum either stays as well or begins again,
for any task, when one of the others gives the processor away. -/
def Elsewhere (s s' : TaskStruct) : Prop :=
  (s'.tasks idleTask).usedCpuTime = (s.tasks idleTask).usedCpuTime ∧
    (s'.pNow = s.pNow ∧ s'.remainQuantum = s.remainQuantum ∨ s.pNow ≠ idleTask ∧ s'.remainQuantum = taskQuantum)

instance (s s' : TaskStruct) : Decidable (Elsewhere s s') := inferInstanceAs (Decidable (_ ∧ _))

/-- `yield` is a call that the idle task makes while it waits for a semaphore on its way -/
inductive Event where
  | timer (hw : Bool)
  | idle (hw : Bool)
  | yield (hw : Bool)
  | other (s : TaskStruct)

def step (l : LoadState) : Event → Option LoadState
  | .timer hw => ck_TimerIntHandler l hw
  | .idle hw => if l.sched.pNow = idleTask ∧ l.halted = false then csIdleTask l hw else none
  | .yield hw =>
    if l.sched.pNow = idleTask ∧ l.halted = false ∧ (l.pc = .reap ∨ l.pc = .print) then l.yields hw else none
  | .other s => if Elsewhere l.sched s then some { l with sched := s, halted := false } else none

/-! ## runs -/

/-- the ticks since `TickCountLow` was read -/
def sinceRead (n : Nat) (l : LoadState) : Event → Nat
  | .timer _ => n + 1
  | .idle _ => if l.pc = .lastTick ∨ l.pc = .readTick then 0 else n
  | _ => n

/-- fewer than `2^32 / 100` ticks from one measurement to the next -/
def Soon (l : LoadState) (n : Nat) : Event → Prop
  | .idle _ => l.pc = .readTick → n * 100 < 2^32
  | _ => True

/-- the idle task gives the processor to another task -/
def Leaves (l : LoadState) (hw : Bool) : Prop :=
  l.sched.pNow = idleTask ∧ (ckTaskSchedule_internal l.sched hw).any Prod.fst = true

instance (l : LoadState) (hw : Bool) : Decidable (Leaves l hw) := inferInstanceAs (Decidable (_ ∧ _))

/-- the value of `TickCountLow` that was read last -/
def LoadState.tickRead (l : LoadState) : Nat :=
  match l.pc with
  | .readIdle | .store => l.tickCount
  | _ => l.lastTickCount

/-- the ticks that are not charged yet have been counted since the last measurement, and no measurement is half done -/
def Within (l : LoadState) : Prop :=
  l.pc ≠ .readIdle ∧ sub32 taskQuantum l.sched.remainQuantum ≤ sub32 l.tickCountLow l.tickRead

instance (l : LoadState) : Decidable (Within l) := inferInstanceAs (Decidable (_ ∧ _))

/-- the values that the measurement starts from have been read -/
def Pc.measuring : Pc → Bool
  | .lastTick | .lastIdle => false
  | _ => true

/-- what is charged to the idle task in this step is charged within one interval of the measurement -/
def Charges (l : LoadState) : Event → Prop
  | .timer hw => l.ticked.sched.remainQuantum = 0 → Leaves l.ticked hw → l.ticked.pc.measuring = true → Within l.ticked
  | .idle hw => l.pc = .schedule → Leaves l hw → Within l
  | .yield hw => Leaves l hw → Within l
  | .other _ => True

/-- all variables are 32 bits wide -/
structure Words (l : LoadState) : Prop where
  used : l.used < 2^32
  remain : l.sched.remainQuantum < 2^32
  tick : l.tickCountLow < 2^32
  lastTick : l.lastTickCount < 2^32
  lastIdle : l.lastIdleTime < 2^32
  tickCount : l.tickCount < 2^32
  idleTime : l.idleTime < 2^32

/-- the runs whose steps are all made in a state with `ok`; the idle task has not read anything at the start -/
inductive LoadRun (ok : LoadState → Nat → Event → Prop) : LoadState → Nat → Prop
  | start {l n} : Words l → l.processorLoad = 0 → l.pc = .lastTick → LoadRun ok l n
  | step {l n e l'} : LoadRun ok l n → ok l n e → step l e = some l' → LoadRun ok l' (sinceRead n l e)

/-! ## what has been charged -/

/-- The time `used` had the value `base` `elapsed` ticks ago, and `pending` ticks are still to be charged.  A quantum that began
earlier than that can only be the first to be charged. -/
structure Books (used base pending elapsed : Nat) : Prop where
  within : sub32 used base ≤ elapsed
  ahead : sub32 used base = 0 ∨ sub32 used base + pending ≤ elapsed

section
variable {used base pending pending' elapsed : Nat}

theorem Books.fresh (h : used < 2^32) : Books used used pending elapsed :=
  ⟨sub32_self h ▸ Nat.zero_le _, Or.inl (sub32_self h)⟩

theorem Books.keep (h : Books used base pending elapsed) (hp : pending' ≤ pending) : Books used base pending' elapsed :=
  ⟨h.within, h.ahead.imp_right fun ha => by omega⟩

theorem Books.tick (h : Books used base pending elapsed) (hp : pending' ≤ pending + 1) :
    Books used base pending' (elapsed + 1) :=
  ⟨Nat.le_succ_of_le h.within, h.ahead.imp_right fun ha => by omega⟩

theorem Books.charge (h : Books used base pending elapsed) (hb : base < 2^32) (hp : pending ≤ elapsed) :
    Books (u32 (used + pending)) base 0 elapsed := by
  have hsum : sub32 (u32 (used + pending)) base ≤ elapsed := by
    rw [sub32_add hb]
    apply Nat.le_trans (Nat.mod_le _ _)
    rcases h.ahead with h0 | ha
    · rwa [h0, Nat.zero_add]
    · exact ha
  exact ⟨hsum, Or.inr hsum⟩

end

/-! ## what the scheduler does to the account of the idle task -/

def idleUsed (s : TaskStruct) : Nat := (s.tasks idleTask).usedCpuTime

/-- the ticks of the quantum of the idle task, which are charged when it ends -/
def pending (s : TaskStruct) : Nat := if s.pNow = idleTask then sub32 taskQuantum s.remainQuantum else 0

/-- the account stays, or else the quantum is charged, and then `ok` -/
structure Moves (ok : Prop) (s s' : TaskStruct) : Prop where
  remain : s'.remainQuantum = s.remainQuantum ∨ s'.remainQuantum = taskQuantum
  account : idleUsed s' = idleUsed s ∧ pending s' ≤ pending s ∨
    ok ∧ idleUsed s' = u32 (idleUsed s + pending s) ∧ pending s' = 0

theorem pending_quantum {s : TaskStruct} (h : s.remainQuantum = taskQuantum) : pending s = 0 := by
  unfold pending
  rw [h, sub32_self (by decide), ite_self]

theorem Moves.same {ok : Prop} {s s' : TaskStruct} (hused : idleUsed s' = idleUsed s) (hnow : s'.pNow = s.pNow)
    (hremain : s'.remainQuantum = s.remainQuantum) : Moves ok s s' := by
  refine ⟨Or.inl hremain, Or.inl ⟨hused, ?_⟩⟩
  unfold pending
  rw [hnow, hremain]

theorem Elsewhere.moves {ok : Prop} {s s' : TaskStruct} (h : Elsewhere s s') : Moves ok s s' := by
  obtain ⟨hused, ⟨hnow, hremain⟩ | ⟨_, hremain⟩⟩ := h
  · exact .same hused hnow hremain
  · exact ⟨Or.inr hremain, Or.inl ⟨hused, pending_quantum hremain ▸ Nat.zero_le _⟩⟩

theorem putBack_used (s : TaskStruct) : idleUsed (putBack s) = idleUsed s := by
  rw [putBack_eq]
  rfl

/-- only the task that runs is charged -/
theorem charge_used (s : TaskStruct) : idleUsed (charge s) = idleUsed s ∨
    s.pNow = idleTask ∧ idleUsed (charge s) = u32 (idleUsed s + sub32 taskQuantum s.remainQuantum) := by
  unfold charge idleUsed
  cases h : (s.tasks s.pNow).pProcess with
  | none => exact Or.inl (by simp only [h])
  | some p =>
    simp only [h]
    by_cases e : s.pNow = idleTask
    · refine Or.inr ⟨e, ?_⟩
      rw [← e]
      exact congrArg Task.usedCpuTime (setTask_self _ _ _)
    · exact Or.inl (congrArg Task.usedCpuTime (setTask_ne _ _ _ (Ne.symm e)))

theorem switchTo_moves (s : TaskStruct) (t : TaskPtr) (hw : Bool) : Moves (s.pNow = idleTask) s (switchTo s t hw) := by
  have hremain : (switchTo s t hw).remainQuantum = taskQuantum := rfl
  have hnow : (putBack s).pNow = s.pNow := by rw [putBack_eq]
  have hquantum : (putBack s).remainQuantum = s.remainQuantum := by rw [putBack_eq]
  have hused : idleUsed (switchTo s t hw) = idleUsed (charge (putBack s)) :=
    setTask_keep (charge (putBack s)) t (fun t => { t with flag := .running }) Task.usedCpuTime rfl idleTask
  refine ⟨Or.inr hremain, ?_⟩
  rw [hused, pending_quantum hremain]
  rcases charge_used (putBack s) with e | ⟨hidle, e⟩
  · exact Or.inl ⟨by rw [e, putBack_used], Nat.zero_le _⟩
  · rw [hnow] at hidle
    refine Or.inr ⟨hidle, ?_, rfl⟩
    rw [e, putBack_used, hquantum, pending, if_pos hidle]

/-- a call changes the account only if the idle task leaves -/
theorem schedule_moves {l : LoadState} {ok : Prop} {b hw : Bool} {s' : TaskStruct} (hc : Leaves l hw → ok)
    (h : ckTaskSchedule_internal l.sched hw = some (b, s')) : Moves ok l.sched s' := by
  obtain ⟨g, count, ⟨rfl, rfl⟩ | ⟨rfl, t, rfl⟩⟩ := schedule_frame h
  · exact .same rfl rfl rfl
  · obtain ⟨hremain, hkept | ⟨hidle, hcharged⟩⟩ := switchTo_moves { l.sched with nodes := g, executeCount := count } t hw
    · exact ⟨hremain, Or.inl hkept⟩
    · refine ⟨hremain, Or.inr ⟨hc ⟨hidle, ?_⟩, hcharged⟩⟩
      rw [h]
      rfl

/-! ## the invariant -/

/-- the time of the idle task that the next measurement starts from -/
def LoadState.idleRead (l : LoadState) : Nat :=
  match l.pc with
  | .store => l.idleTime
  | _ => l.lastIdleTime

structure LoadInv (l : LoadState) (n : Nat) : Prop where
  words : Words l
  percent : l.processorLoad ≤ 100
  clock : l.pc ≠ .lastTick → sub32 l.tickCountLow l.tickRead = n % 2^32
  books : l.pc.measuring = true → l.pc ≠ .readIdle → Books l.used l.idleRead (pending l.sched) n
  short : l.pc = .readIdle ∨ l.pc = .store → sub32 l.tickCount l.lastTickCount * 100 < 2^32
  half : l.pc = .readIdle → sub32 l.used l.lastIdleTime ≤ sub32 l.tickCount l.lastTickCount
  full : l.pc = .store → sub32 l.idleTime l.lastIdleTime ≤ sub32 l.tickCount l.lastTickCount

section
variable {l l' : LoadState} {n : Nat}

theorem Words.tickRead (h : Words l) : l.tickRead < 2^32 := by
  unfold LoadState.tickRead
  split
  · exact h.tickCount
  · exact h.tickCount
  · exact h.lastTick

theorem Words.idleRead (h : Words l) : l.idleRead < 2^32 := by
  unfold LoadState.idleRead
  split
  · exact h.idleTime
  · exact h.lastIdle

theorem Pc.measuring.started {pc : Pc} (h : pc.measuring = true) : pc ≠ .lastTick := by
  rintro rfl
  cases h

theorem LoadInv.pending_le (hi : LoadInv l n) (hm : l.pc.measuring = true) (hw : Within l) : pending l.sched ≤ n := by
  have hquantum : sub32 taskQuantum l.sched.remainQuantum ≤ n :=
    calc sub32 taskQuantum l.sched.remainQuantum ≤ sub32 l.tickCountLow l.tickRead := hw.2
      _ = n % 2^32 := hi.clock (Pc.measuring.started hm)
      _ ≤ n := Nat.mod_le n _
  unfold pending
  split
  · exact hquantum
  · exact Nat.zero_le n

theorem LoadInv.moves (hi : LoadInv l n) {s' : TaskStruct} (halted : Bool)
    (hm : Moves (l.pc.measuring = true → Within l) l.sched s') : LoadInv { l with sched := s', halted := halted } n := by
  have hremain : s'.remainQuantum < 2^32 := by
    rcases hm.remain with e | e
    · rw [e]
      exact hi.words.remain
    · rw [e]
      decide
  rcases hm.account with ⟨hused, hpending⟩ | ⟨hwithin, hused, hpending⟩
  · have hused : ({ l with sched := s', halted := halted } : LoadState).used = l.used := hused
    exact {
      words := { hi.words with used := by rw [hused]; exact hi.words.used, remain := hremain }
      percent := hi.percent
      clock := hi.clock
      books := fun h h' => by
        rw [hused]
        exact (hi.books h h').keep hpending
      short := hi.short
      half := fun h => by
        rw [hused]
        exact hi.half h
      full := hi.full }
  · have hused : ({ l with sched := s', halted := halted } : LoadState).used = u32 (l.used + pending l.sched) := hused
    exact {
      words := { hi.words with used := by rw [hused]; exact u32_lt _, remain := hremain }
      percent := hi.percent
      clock := hi.clock
      books := fun h h' => by
        rw [hused, hpending]
        exact (hi.books h h').charge hi.words.idleRead (hi.pending_le h (hwithin h))
      short := hi.short
      half := fun h => absurd h (hwithin (by rw [h]; rfl)).1
      full := hi.full }

theorem pending_tick {s : TaskStruct} {r : Nat} (h : s.remainQuantum < 2^32) (hr : r = sub32 s.remainQuantum 1) :
    pending { s with remainQuantum := r } ≤ pending s + 1 := by
  show (if s.pNow = idleTask then sub32 taskQuantum r else 0) ≤
    (if s.pNow = idleTask then sub32 taskQuantum s.remainQuantum else 0) + 1
  split
  · rw [hr]
    unfold sub32 taskQuantum
    omega
  · exact Nat.zero_le _

theorem LoadInv.counts (hi : LoadInv l n) {t r : Nat} (ht : t = u32 (l.tickCountLow + 1))
    (hr : r = sub32 l.sched.remainQuantum 1) : LoadInv (l.counts t r) (n + 1) where
  words := { hi.words with tick := ht ▸ u32_lt _, remain := hr ▸ sub32_lt _ _ }
  percent := hi.percent
  clock h := by
    show sub32 t l.tickRead = (n + 1) % 2^32
    rw [ht, sub32_add hi.words.tickRead, hi.clock h, Nat.mod_add_mod]
  books h h' := (hi.books h h').tick (pending_tick hi.words.remain hr)
  short := hi.short
  half := hi.half
  full := hi.full

theorem LoadInv.ticked (hi : LoadInv l n) : LoadInv l.ticked (n + 1) := hi.counts rfl rfl

/-- the parts of the loop between the store and the next read -/
def Pc.rests (pc : Pc) : Prop := pc.measuring = true ∧ pc ≠ .readIdle ∧ pc ≠ .store

instance (pc : Pc) : Decidable pc.rests := inferInstanceAs (Decidable (_ ∧ _))

theorem Pc.rests.tickRead (h : l.pc.rests) : l.tickRead = l.lastTickCount := by
  unfold LoadState.tickRead
  split
  · exact absurd ‹_› h.2.1
  · exact absurd ‹_› h.2.2
  · rfl

theorem Pc.rests.idleRead (h : l.pc.rests) : l.idleRead = l.lastIdleTime := by
  unfold LoadState.idleRead
  split
  · exact absurd ‹_› h.2.2
  · rfl

/-- nothing is read or stored -/
theorem LoadInv.goto (hi : LoadInv l n) (h : l.pc.rests) {pc : Pc} (h' : pc.rests) (halted : Bool) :
    LoadInv { l with pc := pc, halted := halted } n where
  words := { hi.words with }
  percent := hi.percent
  clock _ := by
    rw [Pc.rests.tickRead (l := { l with pc := pc, halted := halted }) h', ← Pc.rests.tickRead h]
    exact hi.clock (Pc.measuring.started h.1)
  books _ _ := by
    rw [Pc.rests.idleRead (l := { l with pc := pc, halted := halted }) h', ← Pc.rests.idleRead h]
    exact hi.books h.1 h.2.1
  short hpc := by
    rcases hpc with e | e
    · exact absurd e h'.2.1
    · exact absurd e h'.2.2
  half e := absurd e h'.2.1
  full e := absurd e h'.2.2

/-! ## one step -/

theorem measuredLoad_le {diffTick diffIdleTime : Nat} (h : diffIdleTime ≤ diffTick) (hd : diffTick * 100 < 2^32) :
    measuredLoad diffTick diffIdleTime ≤ 100 := by
  unfold measuredLoad
  by_cases h0 : diffTick = 0
  · rw [if_pos h0]
    exact Nat.zero_le _
  · have hmul : diffIdleTime * 100 ≤ diffTick * 100 := Nat.mul_le_mul_right 100 h
    have hdiv : diffIdleTime * 100 / diffTick ≤ 100 :=
      Nat.div_le_of_le_mul (by rwa [Nat.mul_comm diffTick 100, Nat.mul_comm 100] at *)
    rw [if_neg h0, u32_of_lt (Nat.lt_of_le_of_lt hmul hd), sub32_of_le hdiv (by decide)]
    exact Nat.sub_le _ _

theorem popTask_moves {s s' : TaskStruct} {list : SchedList} {r : Option TaskPtr} {ok : Prop}
    (h : popTask s list = some (r, s')) : Moves ok s s' := by
  obtain ⟨g, rfl⟩ := popTask_frame h
  exact .same rfl rfl rfl

theorem reap_moves {s s' : TaskStruct} {pTask : TaskPtr} {pProc : Option ProcPtr} {ok : Prop}
    (h : reap s pTask pProc = some s') : Moves ok s s' := by
  obtain ⟨children, g, rfl⟩ := reap_frame h
  exact .same (setTask_keep s pTask (fun t => { t with selector := 0 }) Task.usedCpuTime rfl idleTask) rfl rfl

theorem LoadInv.yields (hi : LoadInv l n) {hw : Bool} (hc : Leaves l hw → Within l) (e : l.yields hw = some l') :
    LoadInv l' n := by
  obtain ⟨⟨b, s'⟩, hs, rfl⟩ := Option.map_eq_some_iff.mp e
  exact hi.moves l.halted (schedule_moves (fun hl _ => hc hl) hs)

/-- another task may get the processor at the end of a quantum -/
def LoadState.ends (l : LoadState) (hw : Bool) : Option LoadState :=
  if l.sched.remainQuantum = 0 then l.yields hw else some l

theorem counts_ends (l : LoadState) (t r : Nat) (hw : Bool) :
    ((setQuantum l.sched r hw).map fun s => { l with tickCountLow := t, halted := false, sched := s }) =
      (l.counts t r).ends hw := by
  unfold setQuantum LoadState.ends LoadState.yields
  have hr : (l.counts t r).sched.remainQuantum = r := rfl
  by_cases h0 : r = 0
  · rw [hr, if_pos h0, if_pos h0, Option.map_map]
    rfl
  · rw [hr, if_neg h0, if_neg h0]
    rfl

/-- the interrupt counts, and then the quantum may be at its end -/
theorem timer_eq (l : LoadState) (hw : Bool) : ck_TimerIntHandler l hw = l.ticked.ends hw := by
  unfold ck_TimerIntHandler ckTaskScheduleOnTimerInt LoadState.ticked
  exact counts_ends l (u32 (l.tickCountLow + 1)) (sub32 l.sched.remainQuantum 1) hw

theorem LoadInv.ends (hi : LoadInv l n) {hw : Bool}
    (hc : l.sched.remainQuantum = 0 → Leaves l hw → l.pc.measuring = true → Within l) (e : l.ends hw = some l') :
    LoadInv l' n := by
  unfold LoadState.ends at e
  by_cases h0 : l.sched.remainQuantum = 0
  · rw [if_pos h0] at e
    obtain ⟨⟨b, s'⟩, hs, rfl⟩ := Option.map_eq_some_iff.mp e
    exact hi.moves l.halted (schedule_moves (hc h0) hs)
  · rw [if_neg h0] at e
    cases e
    exact hi

theorem LoadInv.timer (hi : LoadInv l n) {hw : Bool} (hc : Charges l (.timer hw))
    (e : ck_TimerIntHandler l hw = some l') : LoadInv l' (n + 1) := by
  rw [timer_eq] at e
  exact hi.ticked.ends hc e

theorem LoadInv.lastTick (hi : LoadInv l n) : LoadInv { l with lastTickCount := l.tickCountLow, pc := .lastIdle } 0 where
  words := { hi.words with lastTick := hi.words.tick }
  percent := hi.percent
  clock _ := sub32_self hi.words.tick
  books h := nomatch h
  short := nofun
  half := nofun
  full := nofun

theorem LoadInv.lastIdle (hi : LoadInv l n) (hpc : l.pc = .lastIdle) :
    LoadInv { l with lastIdleTime := l.used, pc := .readTick } n where
  words := { hi.words with lastIdle := hi.words.used }
  percent := hi.percent
  clock _ := by
    have hclock := hi.clock (by simp [hpc])
    rwa [LoadState.tickRead, hpc] at hclock
  books _ _ := .fresh hi.words.used
  short := nofun
  half := nofun
  full := nofun

theorem LoadInv.readTick (hi : LoadInv l n) (hpc : l.pc = .readTick) (hs : n * 100 < 2^32) :
    LoadInv { l with tickCount := l.tickCountLow, pc := .readIdle } 0 := by
  have hclock : sub32 l.tickCountLow l.lastTickCount = n := by
    have hclock := hi.clock (by simp [hpc])
    rw [LoadState.tickRead, hpc] at hclock
    rw [hclock]
    exact Nat.mod_eq_of_lt (by omega)
  have hbooks : Books l.used l.lastIdleTime (pending l.sched) n := by
    have hbooks := hi.books (by simp [hpc, Pc.measuring]) (by simp [hpc])
    rwa [LoadState.idleRead, hpc] at hbooks
  exact {
    words := { hi.words with tickCount := hi.words.tick }
    percent := hi.percent
    clock := fun _ => sub32_self hi.words.tick
    books := fun _ h => absurd rfl h
    short := fun _ => by
      rw [← hclock] at hs
      exact hs
    half := fun _ => Nat.le_trans hbooks.within (Nat.le_of_eq hclock.symm)
    full := nofun }

theorem LoadInv.readIdle (hi : LoadInv l n) (hpc : l.pc = .readIdle) :
    LoadInv { l with idleTime := l.used, pc := .store } n where
  words := { hi.words with idleTime := hi.words.used }
  percent := hi.percent
  clock _ := by
    have hclock := hi.clock (by simp [hpc])
    rwa [LoadState.tickRead, hpc] at hclock
  books _ _ := .fresh hi.words.used
  short _ := hi.short (Or.inl hpc)
  half := nofun
  full _ := hi.half hpc

theorem LoadInv.store (hi : LoadInv l n) (hpc : l.pc = .store) {load : Nat} (hload : load ≤ 100) :
    LoadInv { l with load := load, processorLoad := load, lastTickCount := l.tickCount, lastIdleTime := l.idleTime,
                     pc := .hlt40 } n where
  words := { hi.words with lastTick := hi.words.tickCount, lastIdle := hi.words.idleTime }
  percent := hload
  clock _ := by
    have hclock := hi.clock (by simp [hpc])
    rwa [LoadState.tickRead, hpc] at hclock
  books _ _ := by
    have hbooks := hi.books (by simp [hpc, Pc.measuring]) (by simp [hpc])
    rwa [LoadState.idleRead, hpc] at hbooks
  short := nofun
  half := nofun
  full := nofun

theorem LoadInv.reaps (hi : LoadInv l n) (hpc : l.pc.rests) (e : l.reaps = some l') : LoadInv l' n := by
  obtain ⟨⟨pTask, s⟩, hpop, e⟩ := Option.bind_eq_some_iff.mp e
  cases pTask with
  | none =>
    obtain rfl := Option.some.inj e
    exact (hi.moves l.halted (popTask_moves hpop)).goto hpc (by decide) l.halted
  | some pTask =>
    obtain ⟨s', hreap, rfl⟩ := Option.map_eq_some_iff.mp e
    exact (hi.moves l.halted (popTask_moves hpop)).moves l.halted (reap_moves hreap)

/-- **One step of the idle task**, case by case. -/
theorem LoadInv.idle (hi : LoadInv l n) {hw : Bool} (hs : Soon l n (.idle hw)) (hc : Charges l (.idle hw))
    (e : csIdleTask l hw = some l') : LoadInv l' (sinceRead n l (.idle hw)) := by
  have hrests : ∀ {pc : Pc}, l.pc = pc → pc.rests → l.pc.rests := fun e h => e ▸ h
  unfold csIdleTask at e
  unfold sinceRead
  cases hpc : l.pc with
  | lastTick =>
    rw [hpc] at e
    obtain rfl := Option.some.inj e
    exact hi.lastTick
  | lastIdle =>
    rw [hpc] at e
    obtain rfl := Option.some.inj e
    exact hi.lastIdle hpc
  | readTick =>
    rw [hpc] at e
    obtain rfl := Option.some.inj e
    exact hi.readTick hpc (hs hpc)
  | readIdle =>
    rw [hpc] at e
    obtain rfl := Option.some.inj e
    exact hi.readIdle hpc
  | store =>
    rw [hpc] at e
    obtain rfl := Option.some.inj e
    exact hi.store hpc (measuredLoad_le (hi.full hpc) (hi.short (Or.inr hpc)))
  | hlt40 =>
    rw [hpc] at e
    obtain rfl := Option.some.inj e
    exact hi.goto (hrests hpc (by decide)) (by decide) _
  | hlt80 =>
    rw [hpc] at e
    obtain rfl := Option.some.inj e
    exact hi.goto (hrests hpc (by decide)) (by decide) _
  | hlt95 =>
    rw [hpc] at e
    obtain rfl := Option.some.inj e
    exact hi.goto (hrests hpc (by decide)) (by decide) _
  | reap =>
    rw [hpc] at e
    exact hi.reaps (hrests hpc (by decide)) e
  | print =>
    rw [hpc] at e
    obtain rfl := Option.some.inj e
    exact hi.goto (hrests hpc (by decide)) (by decide) l.halted
  | schedule =>
    rw [hpc] at e
    obtain ⟨⟨b, s'⟩, hsched, rfl⟩ := Option.map_eq_some_iff.mp e
    have hmoved := hi.moves l.halted (schedule_moves (fun hl _ => hc hpc hl) hsched)
    exact hmoved.goto (hrests hpc (by decide)) (by decide : Pc.readTick.rests) l.halted

theorem LoadInv.step (hi : LoadInv l n) {ev : Event} (hs : Soon l n ev) (hc : Charges l ev) (e : step l ev = some l') :
    LoadInv l' (sinceRead n l ev) := by
  cases ev with
  | timer hw => exact hi.timer hc e
  | idle hw =>
    obtain ⟨_, e⟩ := Option.ite_none_right_eq_some.mp e
    exact hi.idle hs hc e
  | yield hw =>
    obtain ⟨_, e⟩ := Option.ite_none_right_eq_some.mp e
    exact hi.yields hc e
  | other s =>
    obtain ⟨helse, e⟩ := Option.ite_none_right_eq_some.mp e
    obtain rfl := Option.some.inj e
    exact hi.moves false helse.moves

theorem LoadInv.start (hw : Words l) (hload : l.processorLoad = 0) (hpc : l.pc = .lastTick) : LoadInv l n where
  words := hw
  percent := hload ▸ Nat.zero_le _
  clock h := absurd hpc h
  books h := absurd hpc (Pc.measuring.started h)
  short h := by
    rw [hpc] at h
    exact absurd h (by decide)
  half h := absurd (hpc.symm.trans h) (by decide)
  full h := absurd (hpc.symm.trans h) (by decide)

theorem LoadRun.inv (hr : LoadRun (fun l n e => Soon l n e ∧ Charges l e) l n) : LoadInv l n := by
  induction hr with
  | start hw hload hpc => exact .start hw hload hpc
  | step _ hok e ih => exact ih.step hok.1 hok.2 e

/-- **The processor load is a percentage**, after every step. -/
theorem processorLoad_le (hr : LoadRun (fun l n e => Soon l n e ∧ Charges l e) l n) : l.processorLoad ≤ 100 :=
  hr.inv.percent

end

/-! ## two runs -/

instance (l : LoadState) (n : Nat) (e : Event) : Decidable (Soon l n e) :=
  match e with
  | .idle _ => inferInstanceAs (Decidable (_ → _))
  | .timer _ | .yield _ | .other _ => instDecidableTrue

instance (l : LoadState) (e : Event) : Decidable (Charges l e) :=
  match e with
  | .timer _ => inferInstanceAs (Decidable (_ → _ → _ → _))
  | .idle _ => inferInstanceAs (Decidable (_ → _ → _))
  | .yield _ => inferInstanceAs (Decidable (_ → _))
  | .other _ => instDecidableTrue

/-- what happens next may depend on the state -/
def loadStep (ok : LoadState → Nat → Event → Prop) [∀ l n e, Decidable (ok l n e)] (r : LoadState × Nat)
    (e : LoadState → Event) : Option (LoadState × Nat) :=
  if ok r.1 r.2 (e r.1) then (step r.1 (e r.1)).map fun l => (l, sinceRead r.2 r.1 (e r.1)) else none

/-- the kernel task is about to call `ckTaskSchedule` for the first time -/
def bootLoad : LoadState where
  sched := bootState
  tickCountLow := 0
  processorLoad := 0
  pc := .lastTick
  halted := false
  lastTickCount := 0
  lastIdleTime := 0
  tickCount := 0
  idleTime := 0
  load := 0

theorem bootLoad_words : Words bootLoad := by
  constructor <;> decide +kernel

section
variable {ok : LoadState → Nat → Event → Prop} [∀ l n e, Decidable (ok l n e)]

theorem loadStep_run {r r' : LoadState × Nat} {e : LoadState → Event} (h : loadStep ok r e = some r')
    (hr : LoadRun ok r.1 r.2) : LoadRun ok r'.1 r'.2 := by
  obtain ⟨hok, h⟩ := Option.ite_none_right_eq_some.mp h
  obtain ⟨l', hstep, rfl⟩ := Option.map_eq_some_iff.mp h
  exact hr.step hok hstep

theorem replay_run {es : List (LoadState → Event)} {r : LoadState × Nat}
    (h : Machine.replay (loadStep ok) es (bootLoad, 0) = some r) : LoadRun ok r.1 r.2 :=
  Machine.replay_keeps (R := fun r => LoadRun ok r.1 r.2) (fun r e r' => loadStep_run) h
    (.start bootLoad_words rfl rfl)

end

/-- the idle task goes on -/
def goOn (_ : LoadState) : Event := .idle false

def tick (_ : LoadState) : Event := .timer false

/-- another task calls `ckTaskSchedule` -/
def yielded (l : LoadState) : Event := .other (((ckTaskSchedule_internal l.sched false).map Prod.snd).getD l.sched)

/-- three ticks in the idle task, which waits for each of them, and two in the kernel task -/
def shared : List (LoadState → Event) :=
  [yielded, goOn, goOn, goOn, goOn, goOn, goOn, tick, goOn, tick, goOn, tick, goOn, goOn, goOn, tick, tick, yielded,
    goOn, goOn, goOn]

theorem shared_some : (Machine.replay (loadStep fun l n e => Soon l n e ∧ Charges l e) shared (bootLoad, 0)).isSome := by
  decide +kernel

def sharedState : LoadState × Nat := Option.get _ shared_some

theorem processorLoad_le_shared : sharedState.1.processorLoad = 40 ∧ sharedState.1.processorLoad ≤ 100 :=
  ⟨by decide +kernel, processorLoad_le (replay_run (Option.some_get shared_some).symm)⟩

/-- two ticks before the first measurement, and one between the first and the second -/
def reachesOver : List (LoadState → Event) :=
  [yielded, goOn, goOn, tick, tick, goOn, goOn, goOn, goOn, goOn, goOn, goOn, goOn, goOn, tick, yielded, goOn, goOn, goOn]

theorem reachesOver_some : (Machine.replay (loadStep Soon) reachesOver (bootLoad, 0)).isSome := by decide +kernel

def overState : LoadState × Nat := Option.get _ reachesOver_some

/-- **The load leaves the range**: the second measurement finds that the idle task was charged for two ticks in one. -/
theorem load_wraps : LoadRun Soon overState.1 overState.2 ∧ overState.1.processorLoad = 2^32 - 100 ∧
    ¬ overState.1.processorLoad ≤ 100 :=
  ⟨replay_run (Option.some_get reachesOver_some).symm, by decide +kernel, by decide +kernel⟩

end Clubcos.Load
