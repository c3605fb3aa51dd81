import FlintRTOS.Tasks
import Mathlib.Algebra.Group.Nat.Defs

/-!
# Queues (`kernel/queue.c`)

A queue is the C record with its pointers as addresses and the bytes of its own
storage.  `none` is undefined behaviour: a copy outside the storage or through a
NULL buffer.  `pvPortMalloc` enters as the address it returns.

`prvSend` and `xQueueReceive` are not atomic.  Their critical sections are the
functions below; what a task does between them is the business of the kernel
machine.
-/

namespace FlintRTOS

open ListId ItemId

/-- The bytes of one message. -/
abbrev Item := List UInt8

structure Queue where
  pcHead : Nat
  pcTail : Nat
  pcWriteTo : Nat
  pcReadFrom : Nat
  uxLength : Nat
  uxItemSize : Nat
  uxMessagesWaiting : Nat
  ucIsMutex : Bool
  pxMutexHolder : Option TaskId
  memory : Nat → UInt8

/-- `sizeof(Queue_t)` on the 64-bit port. -/
def sizeofQueue : Nat := 152

@[simps] def Queue.setMessagesWaiting (q : Queue) (n : Nat) : Queue :=
  { q with uxMessagesWaiting := n }

@[simps] def Queue.setMutexHolder (q : Queue) (holder : Option TaskId) : Queue :=
  { q with pxMutexHolder := holder }

@[simps] def Queue.setIsMutex (q : Queue) : Queue := { q with ucIsMutex := true }

/-! ### Creation -/

/-- The products are of type `size_t` and `UBaseType_t` and wrap at 2⁶⁴. -/
@[simps] def Queue.initial (pxQueue uxQueueLength uxItemSize : Nat) : Queue where
  pcHead := pxQueue + sizeofQueue
  pcTail := pxQueue + sizeofQueue + uxQueueLength * uxItemSize % 2 ^ 64
  pcWriteTo := pxQueue + sizeofQueue
  pcReadFrom := pxQueue + sizeofQueue +
    (uxQueueLength - 1) * (if uxItemSize > 0 then uxItemSize else 1) % 2 ^ 64
  uxLength := uxQueueLength
  uxItemSize := uxItemSize
  uxMessagesWaiting := 0
  ucIsMutex := false
  pxMutexHolder := none
  memory _ := 0

/-- The waiting lists of a new queue. -/
def prvInitialiseQueueLists (xQueue : QueueId) (s : Sched) : Option Sched := do
  let lists ← s.lists.vListInitialise (xTasksWaitingToSend xQueue)
  let lists ← lists.vListInitialise (xTasksWaitingToReceive xQueue)
  return s.setLists lists

/-- `xQueue` is the number the new queue gets; the first component is NULL when
    nothing is created. -/
def xQueueCreate (xQueue : QueueId) (pxQueue : Option Nat) (uxQueueLength uxItemSize : Nat)
    (s : Sched) : Option (Option Queue × Sched) :=
  match pxQueue with
  | none => some (none, s)
  | some p =>
      if uxQueueLength = 0 then some (none, s)
      else do
        let s ← prvInitialiseQueueLists xQueue s
        return (some (Queue.initial p uxQueueLength uxItemSize), s)

def xQueueCreateCounting (xQueue : QueueId) (pxQueue : Option Nat)
    (uxMaxCount uxInitialCount : Nat) (s : Sched) : Option (Option Queue × Sched) := do
  let (q, s) ← xQueueCreate xQueue pxQueue uxMaxCount 0 s
  return (q.map fun q => q.setMessagesWaiting uxInitialCount, s)

/-! ### Copying -/

/-- A copy of `uxItemSize` bytes at `p` stays inside the storage. -/
def Queue.inStorage (q : Queue) (p : Nat) : Bool :=
  decide (q.pcHead ≤ p ∧ p + q.uxItemSize ≤ q.pcTail)

/-- `memcpy` from the item into the storage. -/
def memcpyIn (memory : Nat → UInt8) (p : Nat) (item : Item) : Nat → UInt8 := fun a =>
  if p ≤ a ∧ a < p + item.length then item.getD (a - p) 0 else memory a

/-- `memcpy` of `n` bytes out of the storage. -/
def memcpyOut (memory : Nat → UInt8) (p n : Nat) : Item :=
  (List.range n).map fun j => memory (p + j)

@[simps] def Queue.copyToBack (q : Queue) (item : Item) : Queue :=
  { q with
    memory := memcpyIn q.memory q.pcWriteTo item
    pcWriteTo := if q.pcWriteTo + q.uxItemSize ≥ q.pcTail then q.pcHead
      else q.pcWriteTo + q.uxItemSize }

@[simps] def Queue.copyToFront (q : Queue) (item : Item) : Queue :=
  { q with
    memory := memcpyIn q.memory q.pcReadFrom item
    pcReadFrom := if q.pcReadFrom = q.pcHead then q.pcTail - q.uxItemSize
      else q.pcReadFrom - q.uxItemSize }

@[simps] def Queue.advanceRead (q : Queue) : Queue :=
  { q with
    pcReadFrom := if q.pcReadFrom + q.uxItemSize ≥ q.pcTail then q.pcHead
      else q.pcReadFrom + q.uxItemSize }

@[simps!] def Queue.incrMessages (q : Queue) : Queue :=
  q.setMessagesWaiting (q.uxMessagesWaiting + 1)

@[simps!] def Queue.decrMessages (q : Queue) : Queue :=
  q.setMessagesWaiting (q.uxMessagesWaiting - 1)

def prvCopyIn (pvItem : Option Item) (xToFront : Bool) (q : Queue) : Option Queue :=
  match pvItem with
  | none => some q.incrMessages
  | some item =>
      if q.uxItemSize > 0 then
        if xToFront then
          if q.inStorage q.pcReadFrom then some (q.copyToFront item).incrMessages else none
        else
          if q.inStorage q.pcWriteTo then some (q.copyToBack item).incrMessages else none
      else some q.incrMessages

/-- Returns the bytes copied to the caller's buffer; `pvBuffer` says whether the
    buffer is non-NULL. -/
def prvCopyOut (pvBuffer : Bool) (q : Queue) : Option (Item × Queue) :=
  if q.uxItemSize > 0 then
    let q := q.advanceRead
    if pvBuffer && q.inStorage q.pcReadFrom then
      some (memcpyOut q.memory q.pcReadFrom q.uxItemSize, q.decrMessages)
    else none
  else some ([], q.decrMessages)

/-! ### Calls and their critical sections -/

/-- A call of `xQueueSendToBack`, `xQueueSendToFront` (both are `prvSend`) or
    `xQueueReceive`, with its arguments. -/
inductive Call where
  | prvSend (xQueue : QueueId) (pvItem : Option Item) (xTicksToWait : TickType)
      (xToFront : Bool)
  | xQueueReceive (xQueue : QueueId) (pvBuffer : Bool) (xTicksToWait : TickType)
deriving DecidableEq, Repr

def xQueueSendToBack (xQueue : QueueId) (pvItem : Option Item) (xTicksToWait : TickType) :
    Call :=
  .prvSend xQueue pvItem xTicksToWait false

def xQueueSendToFront (xQueue : QueueId) (pvItem : Option Item) (xTicksToWait : TickType) :
    Call :=
  .prvSend xQueue pvItem xTicksToWait true

def xSemaphoreTake (xSem : QueueId) (xTicksToWait : TickType) : Call :=
  .xQueueReceive xSem false xTicksToWait

def xSemaphoreGive (xSem : QueueId) : Call := xQueueSendToBack xSem none 0

namespace Call

def xQueue : Call → QueueId
  | prvSend q _ _ _ => q
  | xQueueReceive q _ _ => q

def xTicksToWait : Call → TickType
  | prvSend _ _ n _ => n
  | xQueueReceive _ _ n => n

def isSend : Call → Bool
  | prvSend _ _ _ _ => true
  | xQueueReceive _ _ _ => false

/-- The list the caller blocks on. -/
def waitList : Call → ListId
  | prvSend q _ _ _ => xTasksWaitingToSend q
  | xQueueReceive q _ _ => xTasksWaitingToReceive q

/-- The list a successful call wakes the head of. -/
def wakeList : Call → ListId
  | prvSend q _ _ _ => xTasksWaitingToReceive q
  | xQueueReceive q _ _ => xTasksWaitingToSend q

/-- The result of a call that could not proceed. -/
def failure : Call → BaseType
  | prvSend _ _ _ _ => errQueueFull
  | xQueueReceive _ _ _ => errQueueEmpty

/-- The test at the head of a critical section. -/
def possible (c : Call) (q : Queue) : Bool :=
  match c with
  | prvSend _ _ _ _ => decide (q.uxMessagesWaiting < q.uxLength)
  | xQueueReceive _ _ _ => decide (q.uxMessagesWaiting > 0)

/-- The transfer of the message: the bytes sent or received. -/
def copy (c : Call) (q : Queue) : Option (Item × Queue) :=
  match c with
  | prvSend _ pvItem _ xToFront =>
      (prvCopyIn pvItem xToFront q).map fun q => (pvItem.getD [], q)
  | xQueueReceive _ pvBuffer _ => prvCopyOut pvBuffer q

/-- The mutex part of a successful section: a give disinherits and clears the
    holder, a take records the caller. -/
def settle (c : Call) (q : Queue) (s : Sched) : Option (Queue × Sched) :=
  if q.ucIsMutex then
    match c with
    | prvSend _ _ _ _ => do
        let (_, s) ← vTaskPriorityDisinherit q.pxMutexHolder s
        return (q.setMutexHolder none, s)
    | xQueueReceive _ _ _ => some (q.setMutexHolder s.pxCurrentTCB, s)
  else some (q, s)

/-- The critical section of a call that can proceed: returns `xYield`, the
    message and the new states. -/
def transfer (c : Call) (q : Queue) (s : Sched) : Option (Bool × Item × Queue × Sched) := do
  let (item, q) ← c.copy q
  let (q, s) ← c.settle q s
  let (xYield, s) ← xTaskRemoveFromEventList c.wakeList s
  return (xYield, item, q, s)

/-- Only a receive on a mutex boosts the holder before it blocks. -/
def boost (c : Call) (q : Queue) (s : Sched) : Option Sched :=
  if q.ucIsMutex && !c.isSend then vTaskPriorityInherit q.pxMutexHolder s else some s

/-- The critical section that blocks the caller. -/
def enlist (c : Call) (q : Queue) (s : Sched) : Option Sched := do
  let s ← c.boost q s
  vTaskPlaceOnEventList c.waitList c.xTicksToWait s

end Call

/-- The mutex is created empty, marked, and given once.  Nobody else has its
    handle yet, so the give runs on the new queue alone. -/
def xQueueCreateMutex (xQueue : QueueId) (pxQueue : Option Nat) (s : Sched) :
    Option (Option Queue × Sched) := do
  let (q, s) ← xQueueCreate xQueue pxQueue 1 0 s
  match q with
  | none => return (none, s)
  | some q =>
      let (_, _, q, s) ← (xSemaphoreGive xQueue).transfer q.setIsMutex s
      return (some q, s)

def uxQueueMessagesWaiting (q : Queue) : Nat := q.uxMessagesWaiting

/-- The difference is of type `UBaseType_t`. -/
def uxQueueSpacesAvailable (q : Queue) : Nat :=
  (q.uxLength + 2 ^ 64 - q.uxMessagesWaiting) % 2 ^ 64

end FlintRTOS
