import FlintRTOS.Heap4Exact
import FlintRTOS.Scheduler

/-!
# Creating tasks from the heap

`xTaskCreate` takes a stack and a task control block from the heap, and gives the
stack back when there is no room for the control block.  The scheduler and the
heap are run together here: tasks are created with any stack depth, everything
else that `tasks.c` does may come in between, and any clients of the heap, the
kernel's own among them, allocate, free and write as they like.  What a successful
`xTaskCreate` stores in its two blocks is such a write.
-/

namespace FlintRTOS

open Heap4 Tiling

variable {pool : Pool}

/-- `sizeof(StackType_t)`. -/
abbrev sizeofStackType : UInt64 := 8

/-- `sizeof(TCB_t)`: two pointers, two list items of 40 bytes, two priorities, the
    stack depth and a name of 16 characters, padded to words. -/
abbrev sizeofTCB : UInt64 := 136

namespace Heap4

/-- `pvPortMalloc` with the pointer it returns. -/
def HeapState.allocate (pool : Pool) (s : HeapState) (xWantedSize : UInt64) :
    Option (Nat × HeapState) := do
  let (pv, h) ← pvPortMalloc pool xWantedSize s.heap
  let s := s.after pool h
  return (pv, { s with live := if pv = 0 then s.live else (pv, xWantedSize.toNat) :: s.live })

theorem HeapState.malloc_eq (s : HeapState) (xWantedSize : UInt64) :
    s.malloc pool xWantedSize = (s.allocate pool xWantedSize).map Prod.snd := by
  unfold malloc allocate
  cases pvPortMalloc pool xWantedSize s.heap <;> rfl

/-- An allocation returns and keeps the account; what it returns is live. -/
theorem HeapInv.allocate {s : HeapState} (h : HeapInv pool s) (xWantedSize : UInt64) :
    ∃ pv s' tiles, s.allocate pool xWantedSize = some (pv, s') ∧ Accounted pool s' tiles ∧
      (pv = 0 → s'.live = s.live) ∧ (pv ≠ 0 → (pv, xWantedSize.toNat) ∈ s'.live) := by
  obtain ⟨s', tiles, hrun, hacc⟩ := s.malloc_spec h xWantedSize
  rw [HeapState.malloc_eq] at hrun
  obtain ⟨⟨pv, s''⟩, hallocate, rfl⟩ := Option.map_eq_some_iff.mp hrun
  refine ⟨pv, s'', tiles, hallocate, hacc, ?_⟩
  obtain ⟨⟨pv', h'⟩, -, hs''⟩ := Option.bind_eq_some_iff.mp hallocate
  cases hs''
  constructor
  · intro hpv
    exact if_pos hpv
  · intro hpv
    show _ ∈ ite _ _ _
    rw [if_neg hpv]
    exact List.mem_cons_self ..

variable {tiles : List (Tile Nat)} {pv : Nat}

/-- The effect of an allocation on a heap that stands for tiles. -/
theorem Tiled.allocate {s s' : HeapState} {xWantedSize : UInt64} (htiled : Tiled pool s.heap tiles)
    (hrun : s.allocate pool xWantedSize = some (pv, s')) :
    MallocEffect pool s.heap tiles xWantedSize.toNat pv s'.heap := by
  obtain ⟨pv', h', hmalloc, heffect⟩ := pvPortMalloc_spec xWantedSize htiled
  rw [HeapState.allocate, hmalloc] at hrun
  cases hrun
  exact heffect

theorem MallocEffect.tiled {h h' : Heap} {r : Nat} (heffect : MallocEffect pool h tiles r pv h')
    (htiled : Tiled pool h tiles) : ∃ tiles', Tiled pool h' tiles' := by
  cases heffect with
  | refused => exact ⟨tiles, htiled⟩
  | allocated _ _ _ htiled' => exact ⟨_, htiled'⟩

theorem MallocEffect.eq_of_null {h h' : Heap} {r : Nat}
    (heffect : MallocEffect pool h tiles r pv h') (hpv : pv = 0) : h' = h := by
  cases heffect with
  | refused => rfl
  | allocated => exact absurd hpv (Nat.succ_ne_zero _)

end Heap4

/-! ### The two allocations -/

/-- The memory of a new task.  When there is none for the control block the stack is
    freed. -/
def allocateTask (pool : Pool) (usStackDepth : UInt32) (s : HeapState) :
    Option (TaskMemory × HeapState) := do
  let (pxStack, s) ← s.allocate pool (usStackDepth.toUInt64 * sizeofStackType)
  if pxStack = 0 then return (⟨false, false⟩, s)
  else
    let (pxNewTCB, s) ← s.allocate pool sizeofTCB
    if pxNewTCB = 0 then
      let s ← s.free pool pxStack
      return (⟨true, false⟩, s)
    else return (⟨true, true⟩, s)

variable {s : HeapState}

/-- The allocations return, and when one of them failed the heap stands for the tiles
    it stood for before. -/
theorem allocateTask_spec (h : HeapInv pool s) (usStackDepth : UInt32) :
    ∃ memory s' tiles', allocateTask pool usStackDepth s = some (memory, s') ∧
      Accounted pool s' tiles' ∧
      ((memory.stack && memory.tcb) = false → ∀ tiles, Tiled pool s.heap tiles →
        Tiled pool s'.heap tiles) := by
  obtain ⟨pxStack, s₁, tiles₁, hstack, hacc₁, -, hlive₁⟩ :=
    h.allocate (usStackDepth.toUInt64 * sizeofStackType)
  by_cases hnull : pxStack = 0
  · refine ⟨⟨false, false⟩, s₁, tiles₁, ?_, hacc₁, ?_⟩
    · simp [allocateTask, hstack, hnull]
    · intro _ tiles htiled
      rw [(htiled.allocate hstack).eq_of_null hnull]
      exact htiled
  obtain ⟨pxNewTCB, s₂, tiles₂, htcb, hacc₂, hlive₂, -⟩ :=
    HeapInv.allocate (.inr ⟨tiles₁, hacc₁⟩) sizeofTCB
  by_cases hnull' : pxNewTCB = 0
  · have hlive : (pxStack, (usStackDepth.toUInt64 * sizeofStackType).toNat) ∈ s₂.live := by
      rw [hlive₂ hnull']
      exact hlive₁ hnull
    obtain ⟨s₃, tiles₃, hfree, hacc₃, -⟩ := hacc₂.free hlive
    refine ⟨⟨true, false⟩, s₃, tiles₃, ?_, hacc₃, ?_⟩
    · simp [allocateTask, hstack, hnull, htcb, hnull', hfree]
    · intro _ tiles htiled
      have heffect := htiled.allocate hstack
      obtain ⟨tiles', htiled'⟩ := heffect.tiled htiled
      obtain ⟨h', hfree', hback⟩ := heffect.free htiled.separated hnull
      rw [HeapState.free, (htiled'.allocate htcb).eq_of_null hnull', hfree'] at hfree
      cases hfree
      exact hback
  · refine ⟨⟨true, true⟩, s₂, tiles₂, ?_, hacc₂, fun hfailed => by cases hfailed⟩
    simp [allocateTask, hstack, hnull, htcb, hnull']

/-! ### The scheduler and the heap together -/

structure TaskSys where
  tasks : SchedSys
  heap : HeapState

/-- The operations of the scheduler that take memory from the heap. -/
def SchedOp.allocates : SchedOp → Bool
  | .xTaskCreate _ _ => true
  | .vTaskStartScheduler _ => true
  | _ => false

inductive TaskSysOp where
  | xTaskCreate (usStackDepth : UInt32) (uxPriority : Nat)
  | vTaskStartScheduler
  | tasks (op : SchedOp)
  | heap (op : HeapOp)

namespace TaskSys

def xTaskCreate (pool : Pool) (usStackDepth : UInt32) (uxPriority : Nat) (s : TaskSys) :
    Option (BaseType × TaskSys) := do
  let (memory, heap) ← allocateTask pool usStackDepth s.heap
  let (xResult, sched) ← FlintRTOS.xTaskCreate memory uxPriority s.tasks.sched
  return (xResult, ⟨⟨sched, s.tasks.yielding⟩, heap⟩)

/-- The idle task has a stack of `configMINIMAL_STACK_SIZE` words. -/
def vTaskStartScheduler (pool : Pool) (configMinimalStackSize : UInt32) (s : TaskSys) :
    Option TaskSys := do
  let (memory, heap) ← allocateTask pool configMinimalStackSize s.heap
  let sched ← FlintRTOS.vTaskStartScheduler memory s.tasks.sched
  return ⟨⟨sched, s.tasks.yielding⟩, heap⟩

def Admits (s : TaskSys) : TaskSysOp → Prop
  | .xTaskCreate _ _ => True
  | .vTaskStartScheduler => s.tasks.admits (.vTaskStartScheduler ⟨true, true⟩) = true
  | .tasks op => op.allocates = false ∧ s.tasks.admits op = true
  | .heap op => op.Admitted s.heap

instance (s : TaskSys) : (op : TaskSysOp) → Decidable (s.Admits op)
  | .xTaskCreate _ _ => inferInstanceAs (Decidable True)
  | .vTaskStartScheduler =>
      inferInstanceAs (Decidable (s.tasks.admits (.vTaskStartScheduler ⟨true, true⟩) = true))
  | .tasks op => inferInstanceAs (Decidable (op.allocates = false ∧ s.tasks.admits op = true))
  | .heap op => inferInstanceAs (Decidable (op.Admitted s.heap))

def exec (pool : Pool) (configMinimalStackSize : UInt32) (s : TaskSys) : TaskSysOp → Option TaskSys
  | .xTaskCreate usStackDepth uxPriority =>
      (s.xTaskCreate pool usStackDepth uxPriority).map Prod.snd
  | .vTaskStartScheduler => s.vTaskStartScheduler pool configMinimalStackSize
  | .tasks op => (s.tasks.exec op).map fun tasks => ⟨tasks, s.heap⟩
  | .heap op => (op.exec pool s.heap).map fun heap => ⟨s.tasks, heap⟩

end TaskSys

/-- The scheduler whose tasks live on the heap. -/
def taskSystem (pool : Pool) (configMinimalStackSize : UInt32) : Machine TaskSys TaskSysOp where
  init := ⟨scheduler.init, (allocator pool).init⟩
  guard s op := s.Admits op
  exec := TaskSys.exec pool configMinimalStackSize

instance (pool : Pool) (configMinimalStackSize : UInt32) (s : TaskSys) (op : TaskSysOp) :
    Decidable ((taskSystem pool configMinimalStackSize).guard s op) :=
  inferInstanceAs (Decidable (s.Admits op))

/-- What the operations that take no memory leave alone. -/
theorem SchedEffect.xListsInitialised {s s' : SchedSys} {op : SchedOp} (heffect : SchedEffect s op s')
    (hop : op.allocates = false) : s'.sched.xListsInitialised = s.sched.xListsInitialised := by
  cases heffect with
  | created | started => cases hop
  | delayed _ _ hblocked | placed _ _ hblocked =>
    obtain ⟨lists, rfl⟩ := hblocked.frame
    rfl
  | woken _ hwake =>
    obtain ⟨top, lists, rfl⟩ := hwake.frame
    rfl
  | inherited hchange | disinherited hchange =>
    rcases hchange with rfl | ⟨t, p, hre⟩
    · rfl
    · obtain ⟨top, lists, rfl⟩ := hre.frame
      rfl
  | inheritance | switched | yielded => rfl
  | ticked hwoke =>
    obtain ⟨top, lists, rfl⟩ := hwoke.frame
    rfl

theorem Heap4.HeapOp.exec_history {s' : HeapState} {op : HeapOp} (hexec : op.exec pool s = some s')
    (h : s.history ≠ []) : s'.history ≠ [] := by
  have hrecord : ∀ (heap : Heap) {history : List Nat}, history ≠ [] → record heap history ≠ [] := by
    intro heap history hne
    unfold record
    split
    · exact hne
    · exact List.cons_ne_nil _ _
  cases op with
  | malloc xWantedSize =>
    obtain ⟨⟨pv, h'⟩, -, hs'⟩ := Option.bind_eq_some_iff.mp hexec
    cases hs'
    exact hrecord _ (hrecord _ h)
  | free pv =>
    obtain ⟨h', -, hs'⟩ := Option.bind_eq_some_iff.mp hexec
    cases hs'
    exact hrecord _ h
  | getFreeHeapSize | getMinimumEverFreeHeapSize =>
    cases hexec
    exact hrecord _ (hrecord _ h)
  | write a link =>
    cases hexec
    exact h

/-- The scheduler is in a state of its own runs, the heap keeps its invariant, and
    the first `xTaskCreate` has initialised both. -/
structure TaskSys.Inv (pool : Pool) (s : TaskSys) : Prop where
  tasks : scheduler.Reach s.tasks
  heap : HeapInv pool s.heap
  opened : s.tasks.sched.xListsInitialised = true → s.heap.history ≠ []

theorem Heap4.Accounted.history_ne_nil {tiles : List (Tile Nat)} (hacc : Accounted pool s tiles) :
    s.history ≠ [] :=
  List.ne_nil_of_mem hacc.latest

theorem TaskSys.Inv.step {configMinimalStackSize : UInt32} {s s' : TaskSys} {op : TaskSysOp}
    (h : s.Inv pool) (hstep : (taskSystem pool configMinimalStackSize).Step s op s') :
    s'.Inv pool := by
  obtain ⟨hguard, hexec⟩ := hstep
  cases op with
  | xTaskCreate usStackDepth uxPriority =>
    obtain ⟨⟨xResult, s''⟩, hcreate, rfl⟩ := Option.map_eq_some_iff.mp hexec
    obtain ⟨memory, heap, tiles, hallocate, hacc, -⟩ := allocateTask_spec h.heap usStackDepth
    simp only [TaskSys.xTaskCreate, hallocate, Option.bind_eq_bind, Option.bind_some] at hcreate
    obtain ⟨⟨r, sched⟩, hsched, hs''⟩ := Option.bind_eq_some_iff.mp hcreate
    cases hs''
    refine ⟨h.tasks.step (a := .xTaskCreate memory uxPriority) ⟨rfl, ?_⟩, .inr ⟨tiles, hacc⟩,
      fun _ => hacc.history_ne_nil⟩
    exact Option.map_eq_some_iff.mpr ⟨_, hsched, rfl⟩
  | vTaskStartScheduler =>
    obtain ⟨memory, heap, tiles, hallocate, hacc, -⟩ :=
      allocateTask_spec h.heap configMinimalStackSize
    change TaskSys.vTaskStartScheduler pool configMinimalStackSize s = some s' at hexec
    simp only [TaskSys.vTaskStartScheduler, hallocate, Option.bind_eq_bind,
      Option.bind_some] at hexec
    obtain ⟨sched, hsched, hs'⟩ := Option.bind_eq_some_iff.mp hexec
    cases hs'
    refine ⟨h.tasks.step (a := .vTaskStartScheduler memory) ⟨hguard, ?_⟩, .inr ⟨tiles, hacc⟩,
      fun _ => hacc.history_ne_nil⟩
    exact Option.map_eq_some_iff.mpr ⟨_, hsched, rfl⟩
  | tasks op =>
    obtain ⟨tasks, htasks, rfl⟩ := Option.map_eq_some_iff.mp hexec
    have hst : scheduler.Step s.tasks op tasks := ⟨hguard.2, htasks⟩
    refine ⟨h.tasks.step hst, h.heap, ?_⟩
    intro hlists
    apply h.opened
    rw [← (scheduler_effect h.tasks hst).xListsInitialised hguard.1]
    exact hlists
  | heap op =>
    obtain ⟨heap, hheap, rfl⟩ := Option.map_eq_some_iff.mp hexec
    obtain ⟨heap', hheap', hinv⟩ := h.heap.step hguard
    obtain rfl := Option.some.inj (hheap'.symm.trans hheap)
    exact ⟨h.tasks, hinv, fun hlists => HeapOp.exec_history hheap (h.opened hlists)⟩

theorem taskSystem_inv {configMinimalStackSize : UInt32} {s : TaskSys}
    (h : (taskSystem pool configMinimalStackSize).Reach s) : s.Inv pool := by
  refine h.invariant (P := TaskSys.Inv pool) ?_ fun _ _ _ _ hinv hstep => hinv.step hstep
  refine ⟨.init, .inl ⟨rfl, rfl, rfl⟩, ?_⟩
  intro hlists
  cases hlists

/-- A creation that failed has left the scheduler alone, once the lists are there. -/
theorem xTaskCreate_failed {memory : TaskMemory} {uxPriority : Nat} {s s' : Sched}
    (hlists : s.xListsInitialised = true)
    (hrun : xTaskCreate memory uxPriority s = some (errCouldNotAllocateRequiredMemory, s')) :
    (memory.stack && memory.tcb) = false ∧ s' = s := by
  have hensure : prvEnsureTaskLists s = some s := if_pos hlists
  simp only [xTaskCreate, hensure, Option.bind_eq_bind, Option.bind_some] at hrun
  split at hrun
  · obtain ⟨σ, -, hσ⟩ := Option.bind_eq_some_iff.mp hrun
    cases hσ
  · rename_i hmemory
    cases hrun
    exact ⟨Bool.eq_false_iff.mpr hmemory, rfl⟩

/-- **A failed creation leaves no trace.**  From every state in which the task lists
    are initialised `xTaskCreate` returns, and when it reports that there is no
    memory, for the stack or for the control block, the scheduler is as it was and
    the free list has the same blocks, with as many bytes free. -/
theorem failed_creation_leaves_no_trace (pool : Pool) (configMinimalStackSize : UInt32)
    {s : TaskSys} (hreach : (taskSystem pool configMinimalStackSize).Reach s)
    (hlists : s.tasks.sched.xListsInitialised = true) (usStackDepth : UInt32) (uxPriority : Nat) :
    ∃ xResult s', s.xTaskCreate pool usStackDepth uxPriority = some (xResult, s') ∧
      (xResult = errCouldNotAllocateRequiredMemory →
        s'.tasks = s.tasks ∧
        s'.heap.heap.xFreeBytesRemaining = s.heap.heap.xFreeBytesRemaining ∧
        s'.heap.heap.pxEnd = s.heap.heap.pxEnd ∧
        ∃ l, FreeList pool s.heap.heap.mem s.heap.heap.pxEnd l ∧
          FreeList pool s'.heap.heap.mem s'.heap.heap.pxEnd l) := by
  have hinv := taskSystem_inv hreach
  obtain ⟨memory, heap, -, hallocate, -, hrestored⟩ := allocateTask_spec hinv.heap usStackDepth
  obtain ⟨xResult, sched, hcreate, -⟩ :=
    xTaskCreate_inv (scheduler_inv hinv.tasks).sched memory uxPriority
  refine ⟨xResult, ⟨⟨sched, s.tasks.yielding⟩, heap⟩, ?_, ?_⟩
  · simp [TaskSys.xTaskCreate, hallocate, hcreate]
  · rintro rfl
    obtain ⟨hfailed, rfl⟩ := xTaskCreate_failed hlists hcreate
    obtain ⟨-, -, hempty⟩ | ⟨tiles, hacc⟩ := hinv.heap
    · exact absurd hempty (hinv.opened hlists)
    have htiled := hacc.tiled
    have htiled' := hrestored hfailed tiles htiled
    have hend : heap.heap.pxEnd = s.heap.heap.pxEnd := htiled'.pxEnd.trans htiled.pxEnd.symm
    refine ⟨rfl, htiled'.remaining.trans htiled.remaining.symm, hend, freeBlocks pool.start tiles,
      ?_, ?_⟩
    · rw [htiled.pxEnd]
      exact htiled.freeList
    · show FreeList pool heap.heap.mem heap.heap.pxEnd _
      rw [htiled'.pxEnd]
      exact htiled'.freeList

/-- The stack of 8 words splits the lower of two free blocks, and the control block
    fits nowhere: the call fails and the two blocks are there again. -/
theorem failed_creation_leaves_no_trace_split : ∃ s,
    (taskSystem smallPool 1).Reach s ∧ s.tasks.sched.uxCurrentNumberOfTasks = 1 ∧
    s.heap.heap.xFreeBytesRemaining = 240 ∧
    ∃ s', s.xTaskCreate smallPool 8 3 = some (errCouldNotAllocateRequiredMemory, s') ∧
      s'.tasks = s.tasks ∧ s'.heap.heap.xFreeBytesRemaining = 240 := by
  obtain ⟨s, hreach, hs⟩ := (taskSystem smallPool 1).exists_reach
    [.xTaskCreate 2 1, .heap (.malloc 100), .heap (.malloc 30), .heap (.free 1216)]
    (fun s => decide (s.tasks.sched.xListsInitialised = true ∧
      s.tasks.sched.uxCurrentNumberOfTasks = 1 ∧ s.heap.heap.xFreeBytesRemaining = 240 ∧
      (s.xTaskCreate smallPool 8 3).map Prod.fst = some errCouldNotAllocateRequiredMemory))
    (by decide +kernel)
  obtain ⟨hlists, hnumber, hfree, hresult⟩ := of_decide_eq_true hs
  obtain ⟨xResult, s', hcreate, htrace⟩ :=
    failed_creation_leaves_no_trace smallPool 1 hreach hlists 8 3
  rw [hcreate] at hresult
  cases hresult
  obtain ⟨htasks, hremaining, -⟩ := htrace rfl
  exact ⟨s, hreach, hnumber, hfree, s', hcreate, htasks, hremaining.trans hfree⟩

end FlintRTOS
