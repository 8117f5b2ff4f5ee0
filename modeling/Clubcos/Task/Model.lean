import Clubcos.LinkedList.Model
import Clubcos.Memory.Model

/-!
# task.c: tasks, processes and the scheduler

`TaskStruct` is the structure of that name without the segment descriptors and the register images in
the `Tss`, with the machine registers and the memory that task.c works on.  A `Task *` is the index of
the slot it points to, `NULL` is `none`.  The four kinds of `LinkedListNode` members (`_node`,
`WaitNode`, `ThreadNode`, `ChildNode`) are nodes of one `Heap` each, with the lists they can be in.

* `ckTaskStructInitialize`, `ckTaskCreate`, `ckProcessCreate`;
* `ckTaskTerminate`, `ckProcessTerminate`, `csCleanupProcess`;
* `ckTaskChangePriority`, `ckTaskSuspend`, `ckTaskResume`, `ckTaskJoin`, `ckProcessJoin`;
* `ckTaskSchedule_internal`, `ckTaskScheduleOnTimerInt`;
* `ck_ExceptIntHandler07`, `fpuInstruction`;
* `idleReap`      one round of the loop of `csIdleTask` over `WaitForExitList`.

A result `none` stands for a failed assertion, an access through `NULL` or a loop that never ends.
The argument `hw` says whether the processor sets `CR0.TS` in the task switch, if there is one.
-/

namespace Clubcos
open Word

def taskQuantum : Nat := 20
abbrev maxTask : Nat := 2048
def taskGdt0 : Nat := 3
def taskIdMaskUnit : Nat := maxTask <<< 1
def taskInvalidId : Nat := 0xffffffff
def taskIdIdxMask : Nat := maxTask - 1
def kernelTaskId : Nat := 0
def idleTaskId : Nat := 1

abbrev maxProcess : Nat := 512
def processIdMaskUnit : Nat := maxProcess <<< 1
def processInvalidId : Nat := 0xffffffff
def processIdIdxMask : Nat := maxProcess - 1
def kernelProcessId : Nat := 0

def kernelBaseAddress : Nat := 0xfe000000
def kernelPhyBaseAddr : Nat := 0x00100000
def kernelPageDirNum : Nat := 0x3f8
def dynMemoryPhysicalAddress : Nat := 0x00900000

/-- what boot.asm loads into `cr3` -/
def kernelCr3 : Nat := 0x00300000

abbrev TaskPtr : Type := Fin maxTask
abbrev ProcPtr : Type := Fin maxProcess

def kernelTask : TaskPtr := ⟨0, by decide⟩
def idleTask : TaskPtr := ⟨1, by decide⟩
def kernelProcess : ProcPtr := ⟨0, by decide⟩

inductive TaskPriority where
  | realtime | highest | high | aboveNormal | normal | belowNormal | low | lowest | idle
deriving DecidableEq

/-- `0` up to `MAX_TASK_PRIORITY` -/
def TaskPriority.all : List TaskPriority :=
  [realtime, highest, high, aboveNormal, normal, belowNormal, low, lowest, idle]

def kernelTaskPriority : TaskPriority := .highest

inductive TaskFlag where
  | running | ready | wait | waitForExit
deriving DecidableEq

/-- the lists that the `_node` of a task can be in -/
inductive SchedList where
  | ready (p : TaskPriority)
  | wait
  | waitForExit
deriving DecidableEq

abbrev FpuContext : Type := BitVec 4096

structure Task where
  waitObj : Option TaskPtr
  selector : Nat
  flag : TaskFlag
  priority : TaskPriority
  fpuContext : FpuContext
  bFpuUsed : Bool
  usedCpuTime : Nat
  pProcess : Option ProcPtr
  stack : Nat
  stacksize : Nat
  id : Nat

structure ProcessData where
  termBuffer : Nat

structure Process where
  pMainThread : Option TaskPtr
  pParentProcess : Option ProcPtr
  pageDirectory : Nat
  pageDirSize : Nat
  cr3 : Nat
  usedCpuTime : Nat
  id : Nat
  procData : ProcessData

/-- the words of the page directories and page tables, and the calls of `ckDynMemFree` and of
`csCleanupProcess`, each in order -/
structure Pages where
  mem : Nat → Nat
  freed : List (Nat × Nat)
  cleaned : List ProcPtr

structure TaskStruct where
  tasks : TaskPtr → Task
  taskIdMask : Nat
  processes : ProcPtr → Process
  processIdMask : Nat
  /-- the `_node` members, `ReadyList`, `WaitList` and `WaitForExitList` -/
  nodes : Heap SchedList TaskPtr
  /-- `WaitNode` and `WaitMeList` -/
  waits : Heap TaskPtr TaskPtr
  /-- `ThreadNode` and `ThreadList` -/
  threads : Heap ProcPtr TaskPtr
  /-- `ChildNode` and `ChildProcessList` -/
  children : Heap ProcPtr ProcPtr
  executeCount : TaskPriority → Nat
  pNow : TaskPtr
  /-- the process whose `ProcData` the pointer points to -/
  pProcData : Option ProcPtr
  remainQuantum : Nat
  pLastTaskUsedFPU : Option TaskPtr
  /-- `CR0.TS` -/
  ts : Bool
  /-- the registers of the FPU -/
  fpu : FpuContext
  pages : Pages

def TaskStruct.setTask (s : TaskStruct) (i : TaskPtr) (f : Task → Task) : TaskStruct :=
  { s with tasks := Function.update s.tasks i (f (s.tasks i)) }

def TaskStruct.setProcess (s : TaskStruct) (p : ProcPtr) (f : Process → Process) : TaskStruct :=
  { s with processes := Function.update s.processes p (f (s.processes p)) }

/-! ## ids -/

def csGetTaskFromId (s : TaskStruct) (id : Nat) : Option TaskPtr :=
  if id = taskInvalidId then none
  else
    let ptr : TaskPtr := ⟨id &&& taskIdIdxMask, Nat.and_lt_two_pow id (by decide : taskIdIdxMask < 2^11)⟩
    if (s.tasks ptr).selector ≠ 0 ∧ (s.tasks ptr).id = id ∧ (s.tasks ptr).flag ≠ .waitForExit then
      some ptr
    else none

def csGetProcessFromId (s : TaskStruct) (id : Nat) : Option ProcPtr :=
  if id = processInvalidId then none
  else
    let ptr : ProcPtr := ⟨id &&& processIdIdxMask, Nat.and_lt_two_pow id (by decide : processIdIdxMask < 2^9)⟩
    if (s.processes ptr).pageDirectory ≠ 0 ∧ (s.processes ptr).id = id ∧
        (s.processes ptr).pMainThread ≠ none then
      some ptr
    else none

/-! ## initialization -/

/-- the state after `memset(g_pTaskStruct, 0, sizeof(TaskStruct))` -/
def TaskStruct.zero (fpu : FpuContext) (mem : Nat → Nat) : TaskStruct where
  tasks := fun _ =>
    { waitObj := none, selector := 0, flag := .running, priority := .realtime, fpuContext := 0
      bFpuUsed := false, usedCpuTime := 0, pProcess := none, stack := 0, stacksize := 0, id := 0 }
  taskIdMask := 0
  processes := fun _ =>
    { pMainThread := none, pParentProcess := none, pageDirectory := 0, pageDirSize := 0, cr3 := 0
      usedCpuTime := 0, id := 0, procData := ⟨0⟩ }
  processIdMask := 0
  nodes := .zero
  waits := .zero
  threads := .zero
  children := .zero
  executeCount := fun _ => 0
  pNow := kernelTask
  pProcData := none
  remainQuantum := 0
  pLastTaskUsedFPU := none
  ts := false
  fpu := fpu
  pages := ⟨mem, [], []⟩

/-- the three kinds of lists that are initialized before there is a task -/
def initSchedLists (h : Heap SchedList TaskPtr) : Heap SchedList TaskPtr :=
  let h := TaskPriority.all.foldl (fun h p => ckLinkedListInit h (.ready p)) h
  let h := ckLinkedListInit h .waitForExit
  ckLinkedListInit h .wait

def ckTaskStructInitialize (fpu : FpuContext) (mem : Nat → Nat) : TaskStruct :=
  let s := TaskStruct.zero fpu mem
  let s := { s with
    ts := true
    pLastTaskUsedFPU := none
    remainQuantum := taskQuantum
    taskIdMask := taskIdMaskUnit
    processIdMask := processIdMaskUnit
    nodes := initSchedLists s.nodes }
  -- Kernel Task Init
  let s := { s with waits := ckLinkedListInit s.waits kernelTask }
  let s := s.setTask kernelTask fun t => { t with
    waitObj := none, selector := taskGdt0, flag := .running, priority := kernelTaskPriority
    bFpuUsed := false, usedCpuTime := 0, stack := 0, id := kernelTaskId }
  let s := { s with
    executeCount := Function.update s.executeCount kernelTaskPriority 1
    pNow := kernelTask }
  -- Idle Task Init
  let s := { s with waits := ckLinkedListInit s.waits idleTask }
  let s := s.setTask idleTask fun t => { t with
    waitObj := none, selector := taskGdt0 + 1, flag := .ready, priority := .idle
    bFpuUsed := false, usedCpuTime := 0, stack := 0, id := idleTaskId }
  let s := { s with nodes := ckLinkedListPushBack_lockfree s.nodes (.ready .idle) idleTask }
  -- Kernel Process Init
  let s := { s with threads := ckLinkedListInit s.threads kernelProcess }
  let s := { s with threads := ckLinkedListPushBack_lockfree s.threads kernelProcess kernelTask }
  let s := s.setTask kernelTask fun t => { t with pProcess := some kernelProcess }
  let s := { s with threads := ckLinkedListPushBack_lockfree s.threads kernelProcess idleTask }
  let s := s.setTask idleTask fun t => { t with pProcess := some kernelProcess }
  let s := { s with children := ckLinkedListInit s.children kernelProcess }
  let s := s.setProcess kernelProcess fun p => { p with
    pMainThread := some kernelTask
    pParentProcess := none
    pageDirectory := u32 (sub32 kernelCr3 kernelBaseAddress + kernelPhyBaseAddr)
    pageDirSize := 0
    cr3 := kernelCr3
    usedCpuTime := 0
    id := kernelProcessId
    procData := ⟨iomapMemoryStartAddress⟩ }
  { s with pProcData := some kernelProcess }

/-! ## creation -/

/-- the first index from `i` on with `p`, among the next `rounds` -/
def firstSlot {n : Nat} (p : Fin n → Bool) : (rounds i : Nat) → Option (Fin n)
  | 0, _ => none
  | rounds+1, i =>
    if h : i < n then if p ⟨i, h⟩ then some ⟨i, h⟩ else firstSlot p rounds (i+1) else none

def freeTask (s : TaskStruct) : Option TaskPtr := firstSlot (fun i => (s.tasks i).selector = 0) maxTask 2

def freeProcess (s : TaskStruct) : Option ProcPtr :=
  firstSlot (fun i => (s.processes i).pageDirectory = 0) maxProcess 0

/-- When no slot is free the loop leaves `ret` at the last one. -/
def ckTaskCreate_unsafe (s : TaskStruct) (stack stacksize : Nat) (pProcess : ProcPtr)
    (priority : TaskPriority) : TaskPtr × TaskStruct :=
  match freeTask s with
  | none => (⟨maxTask - 1, by decide⟩, s)
  | some i =>
    let s := { s with waits := ckLinkedListInit s.waits i }
    let s := s.setTask i fun t => { t with
      waitObj := none, bFpuUsed := false, usedCpuTime := 0, selector := taskGdt0 + i.val
      flag := .ready, priority := priority, pProcess := some pProcess }
    let s := { s with threads := ckLinkedListPushBack_lockfree s.threads pProcess i }
    let s := s.setTask i fun t => { t with
      stack := stack, stacksize := stacksize, id := s.taskIdMask ||| i.val }
    let s := { s with taskIdMask := u32 (s.taskIdMask + taskIdMaskUnit) }
    (i, { s with nodes := ckLinkedListPushBack_lockfree s.nodes (.ready priority) i })

def ckTaskCreate (s : TaskStruct) (stack stacksize processId : Nat) (priority : TaskPriority) :
    Nat × TaskStruct :=
  match csGetProcessFromId s processId with
  | none => (taskInvalidId, s)
  | some pProcess =>
    let (pTask, s) := ckTaskCreate_unsafe s stack stacksize pProcess priority
    ((s.tasks pTask).id, s)

/-- the process slot `ret` is filled in, but for its main thread -/
def fillProcess (s : TaskStruct) (ret pParentProcess : ProcPtr) (pageDirectory pageDirSize cr3 : Nat)
    (procData : ProcessData) : TaskStruct :=
  let s := { s with threads := ckLinkedListInit s.threads ret }
  let s := s.setProcess ret fun p => { p with pParentProcess := some pParentProcess }
  let s := { s with children := ckLinkedListInit s.children ret }
  let id := s.processIdMask ||| ret.val
  let s := s.setProcess ret fun p => { p with
    pageDirectory := pageDirectory, pageDirSize := pageDirSize, cr3 := cr3, usedCpuTime := 0, id := id }
  let s := { s with processIdMask := u32 (s.processIdMask + processIdMaskUnit) }
  let s := { s with children := ckLinkedListPushBack_lockfree s.children pParentProcess ret }
  s.setProcess ret fun p => { p with procData := procData }

def ckProcessCreate (s : TaskStruct) (stack stacksize : Nat) (priority : TaskPriority)
    (pageDirectory pageDirSize cr3 : Nat) (procData : ProcessData) (parentProcessId : Nat) :
    Nat × TaskStruct :=
  match csGetProcessFromId s parentProcessId with
  | none => (processInvalidId, s)
  | some pParentProcess =>
    match freeProcess s with
    | none => (processInvalidId, s)
    | some ret =>
      let id := s.processIdMask ||| ret.val
      let s := fillProcess s ret pParentProcess pageDirectory pageDirSize cr3 procData
      let (pMainThread, s) := ckTaskCreate_unsafe s stack stacksize ret priority
      (id, s.setProcess ret fun p => { p with pMainThread := some pMainThread })

/-! ## the scheduler -/

/-- the first task of a list, taken out of it -/
def popTask (s : TaskStruct) (l : SchedList) : Option (Option TaskPtr × TaskStruct) :=
  match ckLinkedListPopFront_lockfree s.nodes l with
  | some (.null, h) => some (none, { s with nodes := h })
  | some (.node t, h) => some (some t, { s with nodes := h })
  | _ => none

/-- the inner loop of the search for the next task -/
def readyScan : List TaskPriority → TaskStruct → Option (Option TaskPtr × TaskStruct)
  | [], s => some (none, s)
  | i :: is, s =>
    if s.executeCount i < s.nodes.size (.ready i) then do
      let (pNow, s) ← popTask s (.ready i)
      some (pNow, { s with
        executeCount := Function.update s.executeCount i (u32 (s.executeCount i + 1)) })
    else readyScan is { s with executeCount := Function.update s.executeCount i 0 }

/-- the current task goes back to its `ReadyList` if it still runs -/
def putBack (s : TaskStruct) : TaskStruct :=
  let pPrev := s.pNow
  if (s.tasks pPrev).flag = .running then
    let s := { s with
      nodes := ckLinkedListPushBack_lockfree s.nodes (.ready (s.tasks pPrev).priority) pPrev }
    s.setTask pPrev fun t => { t with flag := .ready }
  else s

/-- the current task and its process are charged for the quantum used -/
def charge (s : TaskStruct) : TaskStruct :=
  let pPrev := s.pNow
  match (s.tasks pPrev).pProcess with
  | none => s
  | some pProc =>
    let usedCpuTime := sub32 taskQuantum s.remainQuantum
    let s := s.setProcess pProc fun p => { p with usedCpuTime := u32 (p.usedCpuTime + usedCpuTime) }
    s.setTask pPrev fun t => { t with usedCpuTime := u32 (t.usedCpuTime + usedCpuTime) }

/-- the task that is to run next gets the processor -/
def switchTo (s : TaskStruct) (pNow : TaskPtr) (hw : Bool) : TaskStruct :=
  let s := charge (putBack s)
  let s := { s with pProcData := (s.tasks pNow).pProcess }
  let s := { s with ts := decide (some pNow ≠ s.pLastTaskUsedFPU) }
  let s := { s with pNow := pNow }
  let s := s.setTask pNow fun t => { t with flag := .running }
  let s := { s with remainQuantum := taskQuantum }
  -- the far jump to the task segment
  { s with ts := s.ts || hw }

/-- The flag returned says whether there is a switch: then the call comes back when the task that
made it runs again. -/
def ckTaskSchedule_internal (s : TaskStruct) (hw : Bool) : Option (Bool × TaskStruct) := do
  let (pNow, s) ← readyScan TaskPriority.all s
  let (pNow, s) ← match pNow with
    | some pNow => some (some pNow, s)
    | none => readyScan TaskPriority.all s
  match pNow with
  | none => some (false, s)
  | some pNow => some (true, switchTo s pNow hw)

/-- the quantum left becomes `n`, and another task runs when it is used up -/
def setQuantum (s : TaskStruct) (n : Nat) (hw : Bool) : Option TaskStruct :=
  let s := { s with remainQuantum := n }
  if n = 0 then (ckTaskSchedule_internal s hw).map Prod.snd else some s

def ckTaskScheduleOnTimerInt (s : TaskStruct) (hw : Bool) : Option TaskStruct :=
  setQuantum s (sub32 s.remainQuantum 1) hw

/-! ## priority -/

def ckTaskChangePriority (s : TaskStruct) (taskId : Nat) (priority : TaskPriority) : Bool × TaskStruct :=
  match csGetTaskFromId s taskId with
  | none => (false, s)
  | some pTask =>
    if pTask = s.pNow then (true, s.setTask pTask fun t => { t with priority := priority })
    else if (s.tasks pTask).priority ≠ priority then
      let s := { s with nodes := ckLinkedListErase s.nodes (.ready (s.tasks pTask).priority) pTask }
      let s := { s with nodes := ckLinkedListPushBack_lockfree s.nodes (.ready priority) pTask }
      (true, s.setTask pTask fun t => { t with priority := priority })
    else (true, s)

/-! ## suspend, resume, join -/

def ckTaskSuspend_byptr (s : TaskStruct) (pTask : TaskPtr) (hw : Bool) : Option (Bool × TaskStruct) := do
  let flag := (s.tasks pTask).flag
  if flag ≠ .wait then
    let s :=
      if flag = .ready then
        { s with nodes := ckLinkedListErase s.nodes (.ready (s.tasks pTask).priority) pTask }
      else s
    let s := { s with nodes := ckLinkedListPushBack_lockfree s.nodes .wait s.pNow }
    let s := s.setTask pTask fun t => { t with flag := .wait }
    if flag = .running then
      let (_, s) ← ckTaskSchedule_internal s hw
      some (true, s)
    else some (true, s)
  else some (false, s)

def ckTaskSuspend (s : TaskStruct) (taskId : Nat) (hw : Bool) : Option (Bool × TaskStruct) :=
  if taskId ≠ kernelTaskId ∧ taskId ≠ idleTaskId then
    match csGetTaskFromId s taskId with
    | some pTask => ckTaskSuspend_byptr s pTask hw
    | none => some (false, s)
  else none

def ckTaskResume_byptr (s : TaskStruct) (pTask : TaskPtr) : Bool × TaskStruct :=
  if (s.tasks pTask).flag = .wait then
    let s := { s with nodes := ckLinkedListErase s.nodes .wait pTask }
    let s := s.setTask pTask fun t => { t with flag := .ready }
    (true, { s with
      nodes := ckLinkedListPushBack_lockfree s.nodes (.ready (s.tasks pTask).priority) pTask })
  else (false, s)

def ckTaskResume (s : TaskStruct) (taskId : Nat) : Option (Bool × TaskStruct) :=
  if taskId ≠ kernelTaskId ∧ taskId ≠ idleTaskId then
    match csGetTaskFromId s taskId with
    | some pTask => some (ckTaskResume_byptr s pTask)
    | none => some (false, s)
  else none

/-- the current task waits for `pTask` -/
def joinOn (s : TaskStruct) (pTask : TaskPtr) (hw : Bool) : Option TaskStruct :=
  let pNow := s.pNow
  let s := s.setTask pNow fun t => { t with waitObj := some pTask }
  let s := { s with waits := ckLinkedListPushBack_lockfree s.waits pTask pNow }
  (ckTaskSuspend_byptr s pNow hw).map Prod.snd

def ckTaskJoin (s : TaskStruct) (taskId : Nat) (hw : Bool) : Option TaskStruct :=
  let pTask := csGetTaskFromId s taskId
  if (s.tasks s.pNow).waitObj = none then
    match pTask with
    | some pTask => if (s.tasks pTask).flag ≠ .waitForExit then joinOn s pTask hw else some s
    | none => some s
  else none

def ckProcessJoin (s : TaskStruct) (procId : Nat) (hw : Bool) : Option TaskStruct :=
  let pProc := csGetProcessFromId s procId
  if (s.tasks s.pNow).waitObj = none then
    match pProc with
    | some pProc => do joinOn s (← (s.processes pProc).pMainThread) hw
    | none => some s
  else none

/-! ## clean up -/

def ckDynMemPhysicalToLogical (address : Nat) : Nat :=
  sub32 (u32 (address + dynMemoryStartAddress)) dynMemoryPhysicalAddress

def ckDynMemPhyIsDynMem (phy : Nat) : Bool := dynMemoryPhysicalAddress < phy ∧ phy < 0xc0000000

/-- `entry & ~0x3ff` -/
def entryAddr (entry : Nat) : Nat := entry &&& 0xfffffc00

def Pages.free (g : Pages) (addr size : Nat) : Pages := { g with freed := g.freed ++ [(addr, size)] }

def Pages.clean (g : Pages) (pProc : ProcPtr) : Pages := { g with cleaned := g.cleaned ++ [pProc] }

def Pages.write (g : Pages) (addr v : Nat) : Pages := { g with mem := Function.update g.mem addr v }

/-- the loop over the entries of a page table -/
def cleanupTable : (entries tblptr : Nat) → Pages → Pages
  | 0, _, g => g
  | entries+1, tblptr, g =>
    let entry := g.mem tblptr
    let g :=
      if entry ≠ 0 ∧ ckDynMemPhyIsDynMem (entryAddr entry) then
        (g.free (ckDynMemPhysicalToLogical (entryAddr entry)) dynMemBuddyUnitSize).write tblptr 0
      else g
    cleanupTable entries (u32 (tblptr + 4)) g

/-- the loop over the entries of a page directory -/
def cleanupDirectory : (entries dirptr : Nat) → Pages → Pages
  | 0, _, g => g
  | entries+1, dirptr, g =>
    let entry := g.mem dirptr
    let g :=
      if entry ≠ 0 then
        let ptbl := ckDynMemPhysicalToLogical (entryAddr entry)
        let g := cleanupTable 1024 ptbl g
        (g.free ptbl dynMemBuddyUnitSize).write dirptr 0
      else g
    cleanupDirectory entries (u32 (dirptr + 4)) g

/-- the page directory of a process is given back, with all that hangs on it -/
def cleanupPages (g : Pages) (p : Process) : Pages :=
  let pdir := p.pageDirectory
  if pdir ≠ 0 then
    let g := cleanupDirectory kernelPageDirNum pdir g
    if p.pageDirSize ≠ 0 then g.free pdir p.pageDirSize else g
  else g

def csCleanupProcess (s : TaskStruct) (pProc : ProcPtr) : Option TaskStruct := do
  let pParentProcess ← (s.processes pProc).pParentProcess
  let s := { s with children := ckLinkedListErase s.children pParentProcess pProc }
  some { s with pages := (cleanupPages s.pages (s.processes pProc)).clean pProc }

/-- the process of a task that ends is cleaned up if it ends as well -/
def cleanupWith (s : TaskStruct) : Option ProcPtr → Option TaskStruct
  | some pProc => csCleanupProcess s pProc
  | none => some s

/-- the slot of a task that is in no list becomes free -/
def reap (s : TaskStruct) (pTask : TaskPtr) (pProc : Option ProcPtr) : Option TaskStruct := do
  let s ← cleanupWith s pProc
  let s :=
    if (s.tasks pTask).stack ≠ 0 then
      { s with pages := s.pages.free (s.tasks pTask).stack (s.tasks pTask).stacksize }
    else s
  some (s.setTask pTask fun t => { t with selector := 0 })

/-- one round of the loop of the idle task over `WaitForExitList` -/
def idleReap (s : TaskStruct) : Option TaskStruct := do
  let (pTask, s) ← popTask s .waitForExit
  match pTask with
  | none => some s
  | some pTask => reap s pTask (s.tasks pTask).pProcess

/-! ## termination -/

/-- one round of the loop over `WaitMeList` -/
def wake (s : TaskStruct) (pNodeTask : TaskPtr) : TaskStruct :=
  (ckTaskResume_byptr (s.setTask pNodeTask fun t => { t with waitObj := none }) pNodeTask).2

def wakeLoop (pTask : TaskPtr) : (fuel : Nat) → Addr TaskPtr TaskPtr → TaskStruct → Option TaskStruct
  | 0, _, _ => none
  | fuel+1, node, s =>
    if node = .dummy pTask then some s
    else
      match node with
      | .node pNodeTask =>
        let s := wake s pNodeTask
        wakeLoop pTask fuel (s.waits.pNext node) s
      | _ => none

/-- A main thread stays in `ThreadList`; the process returned is the one to clean up. -/
def leaveProcess (s : TaskStruct) (pTask : TaskPtr) (pProc : ProcPtr) : Option ProcPtr × TaskStruct :=
  if (s.processes pProc).pMainThread ≠ some pTask then
    let s := { s with threads := ckLinkedListErase s.threads pProc pTask }
    (none, s.setTask pTask fun t => { t with pProcess := none })
  else (some pProc, s.setProcess pProc fun p => { p with pMainThread := none })

/-- the current task ends: it waits for the idle task to free its slot -/
def exitSelf (s : TaskStruct) (pTask : TaskPtr) (hw : Bool) : Option TaskStruct :=
  if (s.tasks pTask).waitObj = none then do
    let s := s.setTask pTask fun t => { t with flag := .waitForExit }
    let s := { s with nodes := ckLinkedListPushBack_lockfree s.nodes .waitForExit pTask }
    let (switched, s) ← ckTaskSchedule_internal s hw
    -- without a switch the loop behind the call never ends
    if switched then some s else none
  else none

/-- another task ends: it leaves the lists it is in and its slot is freed -/
def killOther (s : TaskStruct) (pTask : TaskPtr) (pProc : Option ProcPtr) : Option TaskStruct :=
  match (s.tasks pTask).waitObj with
  | some waitObj =>
    let s := { s with waits := ckLinkedListErase s.waits waitObj pTask }
    let s := s.setTask pTask fun t => { t with waitObj := none }
    if (s.tasks pTask).flag = .wait then
      reap { s with nodes := ckLinkedListErase s.nodes .wait pTask } pTask pProc
    else none
  | none =>
    if (s.tasks pTask).flag = .ready then
      reap { s with nodes := ckLinkedListErase s.nodes (.ready (s.tasks pTask).priority) pTask } pTask pProc
    else none

/-- the task leaves what it has to do with other tasks -/
def depart (s : TaskStruct) (pTask : TaskPtr) : Option (Option ProcPtr × TaskStruct) := do
  let s ← wakeLoop pTask (maxTask + 1) (ckLinkedListHead s.waits pTask) s
  let s := { s with
    pLastTaskUsedFPU := if s.pLastTaskUsedFPU = some pTask then none else s.pLastTaskUsedFPU }
  some (leaveProcess s pTask (← (s.tasks pTask).pProcess))

def ckTaskTerminate_internal (s : TaskStruct) (pTask : TaskPtr) (hw : Bool) : Option TaskStruct := do
  let (pProc, s) ← depart s pTask
  if pTask = s.pNow then exitSelf s pTask hw else killOther s pTask pProc

def ckTaskTerminate (s : TaskStruct) (taskId : Nat) (hw : Bool) : Option (Bool × TaskStruct) :=
  if taskId ≠ kernelTaskId ∧ taskId ≠ idleTaskId then
    match csGetTaskFromId s taskId with
    | some pTask => do some (true, ← ckTaskTerminate_internal s pTask hw)
    | none => some (false, s)
  else none

def ckProcessTerminate (s : TaskStruct) (processId : Nat) (hw : Bool) : Option (Bool × TaskStruct) :=
  if processId ≠ kernelProcessId then
    match csGetProcessFromId s processId with
    | some pProc => do some (true, ← ckTaskTerminate_internal s (← (s.processes pProc).pMainThread) hw)
    | none => some (false, s)
  else none

/-! ## the FPU -/

/-- the registers are stored for the task they belong to -/
def fpuSave (s : TaskStruct) : TaskStruct :=
  match s.pLastTaskUsedFPU with
  | some pLast => s.setTask pLast fun t => { t with fpuContext := s.fpu }
  | none => s

/-- The registers are loaded for the current task; `finit` is the value that the instruction of that
name loads. -/
def fpuLoad (finit : FpuContext) (s : TaskStruct) : TaskStruct :=
  if (s.tasks s.pNow).bFpuUsed then { s with fpu := (s.tasks s.pNow).fpuContext }
  else
    let s := { s with fpu := finit }
    s.setTask s.pNow fun t => { t with bFpuUsed := true }

def ck_ExceptIntHandler07 (finit : FpuContext) (s : TaskStruct) : TaskStruct :=
  let s := { s with ts := false }
  if some s.pNow ≠ s.pLastTaskUsedFPU then
    let s := fpuLoad finit (fpuSave s)
    { s with pLastTaskUsedFPU := some s.pNow }
  else s

/-- the state in which an FPU instruction of the current task operates -/
def fpuReady (finit : FpuContext) (s : TaskStruct) : TaskStruct :=
  if s.ts then ck_ExceptIntHandler07 finit s else s

/-- an FPU instruction with the effect `f` on the registers -/
def fpuInstruction (finit : FpuContext) (f : FpuContext → FpuContext) (s : TaskStruct) : TaskStruct :=
  let s := fpuReady finit s
  { s with fpu := f s.fpu }

end Clubcos
