import FlintRTOS.Machine
import FlintRTOS.Queue

/-!
# The kernel as a machine

The whole system: the scheduler, the queues, and how far each task has come in
the call it is executing.  One action is one atomic piece of the C code: a
critical section, a `taskYIELD`, or the code between two of these, which touches
only the task's own variables.  The tick interrupt may come between any two
actions and switches tasks as the port's interrupt handler does.

`stage` and `yielding` are the program counters of the tasks.  The `log` records
calls, returns, ticks and the message transfers; no action reads it.
-/

namespace FlintRTOS

open ListId ItemId

/-- How far a task is in a queue call.  `enter`: before the first critical
    section; `block`: that section found the queue full or empty and the caller is
    about to enlist; `wait`: enlisted, the second look at the queue is still to
    come; `done`: only the return is left. -/
inductive Stage where
  | app
  | enter (c : Call)
  | block (c : Call)
  | wait (c : Call)
  | done (c : Call) (xResult : BaseType) (item : Item)
deriving DecidableEq, Repr

def Stage.call : Stage → Option Call
  | .app => none
  | .enter c => some c
  | .block c => some c
  | .wait c => some c
  | .done c _ _ => some c

inductive Event where
  | call (t : TaskId) (c : Call)
  | transfer (t : TaskId) (c : Call) (item : Item)
  | ret (t : TaskId) (c : Call) (xResult : BaseType) (item : Item)
  | tick
  | create (q : QueueId) (contents : List Item)
  | delete (q : QueueId)
deriving DecidableEq, Repr

/-- The queue whose messages an event concerns. -/
def Event.queue : Event → Option QueueId
  | .transfer _ c _ => some c.xQueue
  | .create q _ => some q
  | .delete q => some q
  | _ => none

/-- `yielding t`: the next thing `t` executes is `taskYIELD`.  Queues are named by
    their creation number; `queue q` is `none` before creation and after deletion.
    The newest event stands first in `log`. -/
structure Kernel where
  sched : Sched
  queue : QueueId → Option Queue
  uxQueues : Nat
  stage : TaskId → Stage
  yielding : TaskId → Bool
  log : List Event

namespace Kernel

def boot : Kernel where
  sched := Sched.boot
  queue _ := none
  uxQueues := 0
  stage _ := .app
  yielding _ := false
  log := []

@[simps -fullyApplied] def setSched (k : Kernel) (s : Sched) : Kernel := { k with sched := s }

@[simps -fullyApplied] def setYielding (k : Kernel) (t : TaskId) (b : Bool) : Kernel :=
  { k with yielding := Function.update k.yielding t b }

@[simps -fullyApplied] def setStage (k : Kernel) (t : TaskId) (stage : Stage) : Kernel :=
  { k with stage := Function.update k.stage t stage }

@[simps -fullyApplied] def setQueue (k : Kernel) (q : QueueId) (queue : Option Queue) : Kernel :=
  { k with queue := Function.update k.queue q queue }

@[simps -fullyApplied] def record (k : Kernel) (e : Event) : Kernel := { k with log := e :: k.log }

/-- The next queue number is given to `queue`. -/
@[simps -fullyApplied] def addQueue (k : Kernel) (queue : Queue) (contents : List Item) : Kernel :=
  { k with
    queue := Function.update k.queue k.uxQueues (some queue)
    uxQueues := k.uxQueues + 1
    log := .create k.uxQueues contents :: k.log }

end Kernel

inductive Action where
  | xTaskCreate (memory : TaskMemory) (uxPriority : Nat)
  | vTaskStartScheduler (memory : TaskMemory)
  | vTaskSetMutexInheritance (xEnable : Bool)
  | xQueueCreate (pxQueue : Option Nat) (uxQueueLength uxItemSize : Nat)
  | xQueueCreateCounting (pxQueue : Option Nat) (uxMaxCount uxInitialCount : Nat)
  | xQueueCreateMutex (pxQueue : Option Nat)
  | vQueueDelete (xQueue : QueueId)
  | call (c : Call)
  | vTaskDelay (xTicksToDelay : TickType)
  | taskYIELD
  | resume
  | tick
deriving DecidableEq, Repr

namespace Kernel

/-! ### Guards -/

/-- The running task is in application code, and is not the idle task.  Calls that are made
    before the scheduler runs are left out. -/
def inApp (k : Kernel) : Bool :=
  match k.sched.pxCurrentTCB with
  | some t => k.sched.xSchedulerRunning && decide (k.stage t = .app) && !k.yielding t &&
      decide (k.sched.xIdle ≠ some t)
  | none => false

/-- The running task is inside a kernel call. -/
def inKernel (k : Kernel) : Bool :=
  match k.sched.pxCurrentTCB with
  | some t => k.yielding t || decide (k.stage t ≠ .app)
  | none => false

/-- The queue exists, and an item that is passed has the queue's item size. -/
def validCall (k : Kernel) (c : Call) : Bool :=
  match k.queue c.xQueue, c with
  | some q, .prvSend _ (some item) _ _ => decide (item.length = q.uxItemSize)
  | some _, _ => true
  | none, _ => false

/-- Nobody uses the queue: no call on it is in progress and, if it is a mutex,
    it is not held. -/
def unused (k : Kernel) (q : QueueId) : Bool :=
  match k.queue q with
  | some queue => decide (queue.pxMutexHolder = none) &&
      (List.range k.sched.uxCurrentNumberOfTasks).all fun t =>
        decide ((k.stage t).call.map Call.xQueue ≠ some q)
  | none => false

/-- When an action may be taken.  Deleting a queue that is in use is left to the
    application's care, as in `queue.c`; the tick runs from the start of the
    scheduler on. -/
def admits (k : Kernel) : Action → Bool
  | .xTaskCreate _ _ => true
  | .vTaskStartScheduler _ => !k.sched.xSchedulerRunning && decide (k.sched.xTickCount = 0)
  | .vTaskSetMutexInheritance _ => true
  | .xQueueCreate _ _ _ => true
  | .xQueueCreateCounting _ _ _ => true
  | .xQueueCreateMutex _ => true
  | .vQueueDelete q => k.unused q
  | .call c => k.inApp && k.validCall c
  | .vTaskDelay _ => k.inApp
  | .taskYIELD => k.inApp
  | .resume => k.inKernel
  | .tick => k.sched.xSchedulerRunning

/-! ### Code -/

/-- A creation returned a handle or NULL. -/
def created (k : Kernel) (contents : List Item) : Option Queue × Sched → Kernel
  | (none, s) => k.setSched s
  | (some queue, s) => (k.setSched s).addQueue queue contents

/-- A critical section that found the call possible. -/
def transfer (k : Kernel) (t : TaskId) (c : Call) (q : Queue) : Option Kernel := do
  let (xYield, item, q, s) ← c.transfer q k.sched
  return ((((k.setSched s).setQueue c.xQueue (some q)).setYielding t xYield).setStage t
    (.done c pdPass item)).record (.transfer t c item)

/-- The first and the second look at the queue.  After the first a caller that
    may wait goes on to block; after the second it gives up. -/
def attempt (k : Kernel) (t : TaskId) (c : Call) (again : Bool) : Option Kernel := do
  let q ← k.queue c.xQueue
  if c.possible q then k.transfer t c q
  else if again || c.xTicksToWait = 0 then return k.setStage t (.done c c.failure [])
  else return k.setStage t (.block c)

def enlist (k : Kernel) (t : TaskId) (c : Call) : Option Kernel := do
  let q ← k.queue c.xQueue
  let s ← c.enlist q k.sched
  return ((k.setSched s).setYielding t true).setStage t (.wait c)

def yield (k : Kernel) (t : TaskId) : Kernel :=
  (k.setSched (FlintRTOS.vTaskSwitchContext k.sched)).setYielding t false

/-- The running task executes its next atomic piece. -/
def resume (k : Kernel) (t : TaskId) : Option Kernel :=
  if k.yielding t then some (k.yield t)
  else match k.stage t with
    | .app => none
    | .enter c => k.attempt t c false
    | .block c => k.enlist t c
    | .wait c => k.attempt t c true
    | .done c r item => some ((k.setStage t .app).record (.ret t c r item))

def delay (k : Kernel) (t : TaskId) (n : TickType) : Option Kernel :=
  if n > 0 then do
    let s ← vTaskDelaySection n k.sched
    return (k.setSched s).setYielding t true
  else some k

def tick (k : Kernel) : Option Kernel := do
  let s ← FlintRTOS.xTaskIncrementTick k.sched
  return (k.setSched (FlintRTOS.vTaskSwitchContext s)).record .tick

def exec (k : Kernel) : Action → Option Kernel
  | .xTaskCreate memory p => (FlintRTOS.xTaskCreate memory p k.sched).map fun r => k.setSched r.2
  | .vTaskStartScheduler memory =>
      (FlintRTOS.vTaskStartScheduler memory k.sched).map fun s => k.setSched s
  | .vTaskSetMutexInheritance b =>
      some (k.setSched (FlintRTOS.vTaskSetMutexInheritance b k.sched))
  | .xQueueCreate pxQueue length size =>
      (FlintRTOS.xQueueCreate k.uxQueues pxQueue length size k.sched).map (k.created [])
  | .xQueueCreateCounting pxQueue max init =>
      (FlintRTOS.xQueueCreateCounting k.uxQueues pxQueue max init k.sched).map
        (k.created (List.replicate init []))
  | .xQueueCreateMutex pxQueue =>
      (FlintRTOS.xQueueCreateMutex k.uxQueues pxQueue k.sched).map (k.created [[]])
  | .vQueueDelete q => some ((k.setQueue q none).record (.delete q))
  | .call c => k.sched.pxCurrentTCB.map fun t => (k.setStage t (.enter c)).record (.call t c)
  | .vTaskDelay n => k.sched.pxCurrentTCB.bind fun t => k.delay t n
  | .taskYIELD => k.sched.pxCurrentTCB.map fun t => k.yield t
  | .resume => k.sched.pxCurrentTCB.bind fun t => k.resume t
  | .tick => k.tick

end Kernel

def kernel : Machine Kernel Action where
  init := Kernel.boot
  guard k a := k.admits a = true
  exec := Kernel.exec

instance (k : Kernel) (a : Action) : Decidable (kernel.guard k a) :=
  inferInstanceAs (Decidable (k.admits a = true))

end FlintRTOS
