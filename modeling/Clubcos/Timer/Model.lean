import Clubcos.LinkedList.Lists

/-!
# timer.c: timeouts

`T` names the `TimeOut`s of the callers and `Q` the `NoticeQueue`s.  The members `pNextTimeOut` and
`NoticeNode` of a `TimeOut` lie in one union, so `pNextTimeOut` is the `pNext` of its node in the heap of
the notice queues.

* `ckTimerSet`, `ck_TimerIntHandler`   with `fuel` for their loops; the call of the scheduler at the end of
  the handler touches nothing of this state and is left out;
* `Timeouts`   **what the timer is for**: the pending timeouts and the contents of the queues.
-/

set_option linter.unusedSectionVars false

namespace Clubcos
open Word Ring

/-- `s_SentinalTimeOut`, or a `TimeOut` of a caller -/
inductive TimeOutId (T : Type) where
  | sentinal
  | caller (t : T)
deriving DecidableEq

structure TimeOut (Q : Type) where
  timeout : Nat
  noticeQueue : Option Q
deriving DecidableEq

/-- `g_TimerStruct` and what it points to -/
structure TimerStruct (T Q : Type) where
  tickCountLow : Nat
  tickCountHigh : Nat
  pTimeOutHead : Addr Q (TimeOutId T)
  timeOuts : TimeOutId T → TimeOut Q
  notice : Heap Q (TimeOutId T)

section
variable {T Q : Type} [DecidableEq T] [DecidableEq Q]

/-- zeroed, with every notice queue initialized -/
def TimerStruct.zero : TimerStruct T Q where
  tickCountLow := 0
  tickCountHigh := 0
  pTimeOutHead := .null
  timeOuts
    | .sentinal => ⟨0xffffffff, none⟩
    | .caller _ => ⟨0, none⟩
  notice :=
    { links :=
        { next
            | .dummy q => .dummy q
            | .node .sentinal => .node .sentinal
            | _ => .null
          prev
            | .dummy q => .dummy q
            | _ => .null }
      size := fun _ => 0 }

def ckTimerInitialize (s : TimerStruct T Q) : TimerStruct T Q :=
  { s with pTimeOutHead := .node .sentinal }

/-! ## reads and writes through a `TimeOut *` -/

/-- the field `timeout` lies where a `LinkedList` has its `size` -/
def TimerStruct.timeoutAt (s : TimerStruct T Q) : Addr Q (TimeOutId T) → Option Nat
  | .null => none
  | .dummy q => some (s.notice.size q)
  | .node n => some (s.timeOuts n).timeout

def TimerStruct.setTimeOut (s : TimerStruct T Q) (n : TimeOutId T) (v : TimeOut Q) : TimerStruct T Q :=
  { s with timeOuts := Function.update s.timeOuts n v }

/-- `before->pNextTimeOut`, where `none` is `(TimeOut *)&g_TimerStruct.pTimeOutHead` -/
def TimerStruct.pNextTimeOut (s : TimerStruct T Q) : Option (Addr Q (TimeOutId T)) → Addr Q (TimeOutId T)
  | none => s.pTimeOutHead
  | some a => s.notice.pNext a

def TimerStruct.setNextTimeOut (s : TimerStruct T Q) (before : Option (Addr Q (TimeOutId T)))
    (v : Addr Q (TimeOutId T)) : TimerStruct T Q :=
  match before with
  | none => { s with pTimeOutHead := v }
  | some a => { s with notice := s.notice.setNext a v }

/-! ## setting a timeout -/

def timerSetLoop (t : T) (tick : Nat) : (fuel : Nat) → Option (Addr Q (TimeOutId T)) → Addr Q (TimeOutId T) →
    TimerStruct T Q → Option (TimerStruct T Q)
  | 0, _, _, _ => none
  | fuel + 1, before, node, s =>
    match s.timeoutAt node with
    | none => none
    | some timeout =>
      if sub32 (s.timeOuts (.caller t)).timeout tick ≤ sub32 timeout tick then
        let s := s.setNextTimeOut before (.node (.caller t))
        some (s.setNextTimeOut (some (.node (.caller t))) node)
      else timerSetLoop t tick fuel (some node) (s.notice.pNext node) s

def ckTimerSet (fuel : Nat) (s : TimerStruct T Q) (t : T) : Option (Bool × TimerStruct T Q) :=
  if (s.timeOuts (.caller t)).noticeQueue = none then some (false, s)
  else
    let tick := s.tickCountLow
    let s := s.setTimeOut .sentinal { s.timeOuts .sentinal with timeout := u32 (tick + 0xffffffff) }
    (timerSetLoop t tick fuel none s.pTimeOutHead s).map fun s => (true, s)

/-! ## the interrupt -/

/-- The `NoticeQueue` of a `dummy` would be read behind the end of its `LinkedList`: such a run is `none`. -/
def timeOutLoop (low : Nat) : (fuel : Nat) → Addr Q (TimeOutId T) → TimerStruct T Q → Option (TimerStruct T Q)
  | 0, _, _ => none
  | fuel + 1, pTimeOut, s =>
    match s.timeoutAt pTimeOut with
    | none => none
    | some timeout =>
      if timeout = low then
        match pTimeOut with
        | .node n =>
          let s := { s with pTimeOutHead := s.notice.pNext pTimeOut }
          let s := match (s.timeOuts n).noticeQueue with
            | some queue => { s with notice := ckLinkedListPushBack_lockfree s.notice queue n }
            | none => s.setTimeOut n { s.timeOuts n with timeout := u32 (timeout + 0xffffffff) }
          timeOutLoop low fuel (s.notice.pNext pTimeOut) s
        | _ => none
      else some s

def ck_TimerIntHandler (fuel : Nat) (s : TimerStruct T Q) : Option (TimerStruct T Q) :=
  let low := u32 (s.tickCountLow + 1)
  let s := { s with
    tickCountLow := low
    tickCountHigh := if low = 0 then u32 (s.tickCountHigh + 1) else s.tickCountHigh }
  timeOutLoop low fuel s.pTimeOutHead s

/-! ## calls -/

/-- a caller fills in a `TimeOut` and sets it, the timer interrupt, or a pop from a notice queue -/
inductive TimerOp (T Q : Type) where
  | set (t : T) (timeout : Nat) (noticeQueue : Option Q)
  | interrupt
  | pop (q : Q)

def TimerStruct.exec (fuel : Nat) (s : TimerStruct T Q) : TimerOp T Q → Option (TimerStruct T Q)
  | .set t timeout noticeQueue =>
    (ckTimerSet fuel (s.setTimeOut (.caller t) ⟨timeout, noticeQueue⟩) t).map Prod.snd
  | .interrupt => ck_TimerIntHandler fuel s
  | .pop q => (ckLinkedListPopFront_lockfree s.notice q).map fun r => { s with notice := r.2 }

/-! ## what the timer is for -/

structure Timeouts (T Q : Type) where
  tick : Nat
  timeOuts : T → TimeOut Q
  pending : List T
  queue : Q → List T

def Timeouts.start : Timeouts T Q := ⟨0, fun _ => ⟨0, none⟩, [], fun _ => []⟩

/-- the next tick is the deadline of `t` -/
def Timeouts.Due (i : Timeouts T Q) (t : T) : Prop := (i.timeOuts t).timeout = u32 (i.tick + 1)

instance (i : Timeouts T Q) : DecidablePred i.Due := fun t =>
  inferInstanceAs (Decidable ((i.timeOuts t).timeout = u32 (i.tick + 1)))

/-- **One tick**: the timeouts that are due go to their queues, each once, and the others stay pending. -/
def Timeouts.interrupt (i : Timeouts T Q) : Timeouts T Q :=
  { i with
    tick := u32 (i.tick + 1)
    pending := i.pending.filter fun t => ¬ i.Due t
    queue := fun q => i.queue q ++ (i.pending.filter fun t => i.Due t ∧ (i.timeOuts t).noticeQueue = some q) }

def Timeouts.set (i : Timeouts T Q) (t : T) (timeout : Nat) (noticeQueue : Option Q) : Timeouts T Q :=
  { i with
    timeOuts := Function.update i.timeOuts t ⟨timeout, noticeQueue⟩
    pending := if noticeQueue = none then i.pending else t :: i.pending }

def Timeouts.pop (i : Timeouts T Q) (q : Q) : Timeouts T Q :=
  { i with queue := Function.update i.queue q (i.queue q).tail }

def Timeouts.step (i : Timeouts T Q) : TimerOp T Q → Timeouts T Q
  | .set t timeout noticeQueue => i.set t timeout noticeQueue
  | .interrupt => i.interrupt
  | .pop q => i.pop q

end

end Clubcos
