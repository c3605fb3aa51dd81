import FlintRTOS.KernelList
import Mathlib.Tactic.Simps.Basic

/-!
# Task management (`kernel/tasks.c`)

The scheduler state and the functions of `tasks.c` that change it.  Every
function runs inside a critical section or an interrupt, so each is one atomic
transition of the state; `none` is undefined behaviour (a NULL dereference or a
list operation outside its contract).

Tasks are never deleted, so a task is named by its creation number and the
tasks that exist are those below `uxCurrentNumberOfTasks`.  The stack, the task
name and the overflow hook have no effect on the scheduler and are left out, as
is the bounded trace output; `pvPortMalloc` enters as the outcome of its calls.
-/

namespace FlintRTOS

abbrev BaseType := Int

def pdFalse : BaseType := 0
def pdTrue : BaseType := 1
def pdPass : BaseType := 1
def errQueueEmpty : BaseType := 0
def errQueueFull : BaseType := 0
def errCouldNotAllocateRequiredMemory : BaseType := -1

def configMaxPriorities : Nat := 32
def configMaxTasks : Nat := 16

abbrev TaskId := Nat
abbrev QueueId := Nat

/-- The kernel's lists: the scheduler's own and two waiting lists a queue. -/
inductive ListId where
  | xReadyTasksLists (uxPriority : Nat)
  | xDelayedTaskList
  | xSuspendedTaskList
  | xTasksWaitingToSend (xQueue : QueueId)
  | xTasksWaitingToReceive (xQueue : QueueId)
deriving DecidableEq, Repr

/-- The lists that `vTaskPlaceOnEventList` is called with. -/
def ListId.isEventList : ListId → Bool
  | .xTasksWaitingToSend _ => true
  | .xTasksWaitingToReceive _ => true
  | _ => false

/-- The two items embedded in every task control block. -/
inductive ItemId where
  | xStateListItem (t : TaskId)
  | xEventListItem (t : TaskId)
deriving DecidableEq, Repr

abbrev Lists := ListStore ListId ItemId TaskId

structure TCB where
  uxPriority : Nat
  uxBasePriority : Nat
deriving DecidableEq, Repr

/-- The static state of `tasks.c`.  `xIdle` is the handle that
    `vTaskStartScheduler` obtained for the idle task. -/
structure Sched where
  lists : Lists
  tcb : TaskId → TCB
  pxCurrentTCB : Option TaskId
  uxTopReadyPriority : Nat
  xTickCount : TickType
  uxCurrentNumberOfTasks : Nat
  xSchedulerRunning : Bool
  pxTaskRegistry : List TaskId
  xInheritEnabled : Bool
  xListsInitialised : Bool
  xIdle : Option TaskId

/-- The zero-initialised state before the first call. -/
def Sched.boot : Sched where
  lists := ListStore.empty
  tcb _ := ⟨0, 0⟩
  pxCurrentTCB := none
  uxTopReadyPriority := 0
  xTickCount := 0
  uxCurrentNumberOfTasks := 0
  xSchedulerRunning := false
  pxTaskRegistry := []
  xInheritEnabled := true
  xListsInitialised := false
  xIdle := none

@[simps] def Sched.setLists (s : Sched) (lists : Lists) : Sched := { s with lists := lists }

@[simps] def Sched.setTopReadyPriority (s : Sched) (uxPriority : Nat) : Sched :=
  { s with uxTopReadyPriority := uxPriority }

@[simps] def Sched.setTickCount (s : Sched) (xTickCount : TickType) : Sched :=
  { s with xTickCount := xTickCount }

@[simps] def Sched.setPriority (s : Sched) (t : TaskId) (uxNewPriority : Nat) : Sched :=
  { s with tcb := Function.update s.tcb t { s.tcb t with uxPriority := uxNewPriority } }

open ListId ItemId

def prvAddTaskToReadyList (pxTCB : TaskId) (s : Sched) : Option Sched := do
  let uxPriority := (s.tcb pxTCB).uxPriority
  let top := if uxPriority > s.uxTopReadyPriority then uxPriority else s.uxTopReadyPriority
  let lists := s.lists.listSetListItemValue (xStateListItem pxTCB) (UInt32.ofNat uxPriority)
  let lists := lists.listSetListItemOwner (xStateListItem pxTCB) pxTCB
  let lists ← lists.vListInsertEnd (xReadyTasksLists uxPriority) (xStateListItem pxTCB)
  return (s.setTopReadyPriority top).setLists lists

/-! ### Creation and start -/

def prvInitialiseReadyLists : Nat → Lists → Option Lists
  | 0, lists => some lists
  | ux + 1, lists => do
      let lists ← prvInitialiseReadyLists ux lists
      lists.vListInitialise (xReadyTasksLists ux)

def prvInitialiseTaskLists (s : Sched) : Option Sched := do
  let lists ← prvInitialiseReadyLists configMaxPriorities s.lists
  let lists ← lists.vListInitialise xDelayedTaskList
  let lists ← lists.vListInitialise xSuspendedTaskList
  return s.setLists lists

/-- Outcomes of the two allocations of `xTaskCreate`. -/
structure TaskMemory where
  stack : Bool
  tcb : Bool
deriving DecidableEq, Repr

/-- The bookkeeping of a new task: its priorities, its number, its entry in the
    bounded registry, and the first task becomes the current one. -/
@[simps] def Sched.addTask (s : Sched) (uxPriority : Nat) : Sched :=
  { s with
    tcb := Function.update s.tcb s.uxCurrentNumberOfTasks ⟨uxPriority, uxPriority⟩
    uxCurrentNumberOfTasks := s.uxCurrentNumberOfTasks + 1
    pxTaskRegistry := if s.pxTaskRegistry.length < configMaxTasks
      then s.pxTaskRegistry ++ [s.uxCurrentNumberOfTasks] else s.pxTaskRegistry
    pxCurrentTCB := if s.pxCurrentTCB = none then some s.uxCurrentNumberOfTasks
      else s.pxCurrentTCB }

/-- The part of `xTaskCreate` after both allocations succeeded. -/
def prvCreateTask (uxPriority : Nat) (s : Sched) : Option Sched := do
  let pxNewTCB := s.uxCurrentNumberOfTasks
  let lists ← s.lists.vListInitialiseItem (xStateListItem pxNewTCB)
  let lists ← lists.vListInitialiseItem (xEventListItem pxNewTCB)
  let lists := lists.listSetListItemOwner (xStateListItem pxNewTCB) pxNewTCB
  let lists := lists.listSetListItemOwner (xEventListItem pxNewTCB) pxNewTCB
  -- event lists order by priority: highest priority, lowest item value
  let lists := lists.listSetListItemValue (xEventListItem pxNewTCB)
    (UInt32.ofNat (configMaxPriorities - uxPriority))
  prvAddTaskToReadyList pxNewTCB ((s.setLists lists).addTask uxPriority)

@[simps] def Sched.setListsInitialised (s : Sched) : Sched :=
  { s with xListsInitialised := true }

/-- The first call of `xTaskCreate` initialises the lists. -/
def prvEnsureTaskLists (s : Sched) : Option Sched :=
  if s.xListsInitialised then some s
  else (prvInitialiseTaskLists s).map Sched.setListsInitialised

/-- A priority beyond the last ready list is lowered to it. -/
def clampPriority (uxPriority : Nat) : Nat :=
  if uxPriority ≥ configMaxPriorities then configMaxPriorities - 1 else uxPriority

def xTaskCreate (memory : TaskMemory) (uxPriority : Nat) (s : Sched) :
    Option (BaseType × Sched) := do
  let uxPriority := clampPriority uxPriority
  let s ← prvEnsureTaskLists s
  if memory.stack && memory.tcb then
    let s ← prvCreateTask uxPriority s
    return (pdPass, s)
  else
    return (errCouldNotAllocateRequiredMemory, s)

@[simps] def Sched.started (s : Sched) (xIdle : Option TaskId) : Sched :=
  { s with xSchedulerRunning := true, xTickCount := 0, xIdle := xIdle }

def vTaskStartScheduler (memory : TaskMemory) (s : Sched) : Option Sched := do
  let pxNewTCB := s.uxCurrentNumberOfTasks
  let (xResult, s) ← xTaskCreate memory 0 s
  return s.started (if xResult = pdPass then some pxNewTCB else none)

/-! ### Priority inheritance -/

@[simps] def vTaskSetMutexInheritance (xEnable : Bool) (s : Sched) : Sched :=
  { s with xInheritEnabled := xEnable }

def prvReprioritise (pxTCB : TaskId) (uxNewPriority : Nat) (s : Sched) : Option Sched :=
  if s.lists.listIsContainedWithin (xReadyTasksLists (s.tcb pxTCB).uxPriority)
      (xStateListItem pxTCB) then do
    let lists ← s.lists.uxListRemove (xStateListItem pxTCB)
    prvAddTaskToReadyList pxTCB ((s.setLists lists).setPriority pxTCB uxNewPriority)
  else
    some (s.setPriority pxTCB uxNewPriority)

def vTaskPriorityInherit (xMutexHolder : Option TaskId) (s : Sched) : Option Sched :=
  match xMutexHolder, s.pxCurrentTCB with
  | some pxHolder, some pxCur =>
      if s.xInheritEnabled = false then some s
      else if (s.tcb pxHolder).uxPriority < (s.tcb pxCur).uxPriority then
        prvReprioritise pxHolder (s.tcb pxCur).uxPriority s
      else some s
  | _, _ => some s

def vTaskPriorityDisinherit (xMutexHolder : Option TaskId) (s : Sched) :
    Option (BaseType × Sched) :=
  match xMutexHolder with
  | none => some (pdFalse, s)
  | some pxHolder =>
      if (s.tcb pxHolder).uxPriority ≠ (s.tcb pxHolder).uxBasePriority then do
        let s ← prvReprioritise pxHolder (s.tcb pxHolder).uxBasePriority s
        return (pdTrue, s)
      else some (pdFalse, s)

/-! ### Context switch -/

/-- The scan of `vTaskSwitchContext` for a non-empty ready list, downwards from
    `uxTopReadyPriority` and stopping at priority 0. -/
def prvScanReady (lists : Lists) : Nat → Nat
  | 0 => 0
  | uxPriority + 1 =>
      if lists.listListIsEmpty (xReadyTasksLists (uxPriority + 1)) then
        prvScanReady lists uxPriority
      else uxPriority + 1

@[simps] def vTaskSwitchContext (s : Sched) : Sched :=
  let uxPriority := prvScanReady s.lists s.uxTopReadyPriority
  let next := s.lists.listGetOwnerOfNextEntry (xReadyTasksLists uxPriority)
  { s with uxTopReadyPriority := uxPriority, pxCurrentTCB := next.1, lists := next.2 }

/-! ### Blocking and waking -/

def vTaskPlaceOnEventList (pxEventList : ListId) (xTicksToWait : TickType) (s : Sched) :
    Option Sched := do
  let pxTCB ← s.pxCurrentTCB
  let lists ← s.lists.uxListRemove (xStateListItem pxTCB)
  let lists ← lists.vListInsert pxEventList (xEventListItem pxTCB)
  if xTicksToWait = portMaxDelay then
    let lists ← lists.vListInsertEnd xSuspendedTaskList (xStateListItem pxTCB)
    return s.setLists lists
  else
    let lists := lists.listSetListItemValue (xStateListItem pxTCB) (s.xTickCount + xTicksToWait)
    let lists ← lists.vListInsert xDelayedTaskList (xStateListItem pxTCB)
    return s.setLists lists

/-- Returns whether the woken task has a higher priority than the current one. -/
def xTaskRemoveFromEventList (pxEventList : ListId) (s : Sched) : Option (Bool × Sched) :=
  if s.lists.listListIsEmpty pxEventList then some (false, s)
  else do
    let pxItem ← s.lists.listGetHeadEntry pxEventList
    let pxTCB ← s.lists.listGetListItemOwner pxItem
    let lists ← s.lists.uxListRemove (xEventListItem pxTCB)
    let lists ← lists.uxListRemove (xStateListItem pxTCB)
    let s ← prvAddTaskToReadyList pxTCB (s.setLists lists)
    let pxCurrentTCB ← s.pxCurrentTCB
    return (decide ((s.tcb pxTCB).uxPriority > (s.tcb pxCurrentTCB).uxPriority), s)

/-- A task that was also waiting on an event is removed from that list. -/
def prvRemoveEventItem (pxTCB : TaskId) (lists : Lists) : Option Lists :=
  if lists.listGetListItemContainer (xEventListItem pxTCB) ≠ none then
    lists.uxListRemove (xEventListItem pxTCB)
  else some lists

/-- One iteration of the wake-up loop: the head of the delayed list is due. -/
def prvWakeDue (pxItem : ItemId) (s : Sched) : Option Sched := do
  let pxTCB ← s.lists.listGetListItemOwner pxItem
  let lists ← s.lists.uxListRemove (xStateListItem pxTCB)
  let lists ← prvRemoveEventItem pxTCB lists
  prvAddTaskToReadyList pxTCB (s.setLists lists)

/-- The wake-up loop.  Every iteration unlinks one item of the delayed list and
    none is added, so its length bounds the iterations. -/
def prvWakeLoop : Nat → Sched → Option Sched
  | 0, s => some s
  | fuel + 1, s =>
      match s.lists.listGetHeadEntry xDelayedTaskList with
      | none => some s
      | some pxItem =>
          if s.lists.listGetListItemValue pxItem > s.xTickCount then some s
          else (prvWakeDue pxItem s).bind (prvWakeLoop fuel)

def xTaskIncrementTick (s : Sched) : Option Sched :=
  prvWakeLoop (s.lists.listCurrentListLength xDelayedTaskList)
    (s.setTickCount (s.xTickCount + 1))

/-- The critical section of `vTaskDelay`, for a positive `xTicksToDelay`. -/
def vTaskDelaySection (xTicksToDelay : TickType) (s : Sched) : Option Sched := do
  let pxTCB ← s.pxCurrentTCB
  let lists ← s.lists.uxListRemove (xStateListItem pxTCB)
  let lists := lists.listSetListItemValue (xStateListItem pxTCB) (s.xTickCount + xTicksToDelay)
  let lists ← lists.vListInsert xDelayedTaskList (xStateListItem pxTCB)
  return s.setLists lists

end FlintRTOS
