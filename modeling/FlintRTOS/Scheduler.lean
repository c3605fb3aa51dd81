import FlintRTOS.Machine
import FlintRTOS.SchedEffects

/-!
# Runs of the scheduler

The functions of `tasks.c` as the atomic actions of a machine.  The tick
interrupt and `vTaskSwitchContext` may come at any time; the other functions are
called by the running task, with any event list, any timeout and any mutex
holder.

The only discipline is the one every caller in the kernel follows: a task that
has blocked itself (`vTaskDelay`, `vTaskPlaceOnEventList`) executes `taskYIELD`
before anything else.  `yielding t` records that `t` still has to.  A tick may
preempt it there, and then it yields when it is next selected.  The idle task
never blocks: its body only waits for interrupts.
-/

namespace FlintRTOS

open ListId ItemId

structure SchedSys where
  sched : Sched
  yielding : TaskId → Bool

inductive SchedOp where
  | xTaskCreate (memory : TaskMemory) (uxPriority : Nat)
  | vTaskStartScheduler (memory : TaskMemory)
  | vTaskDelay (xTicksToDelay : TickType)
  | vTaskPlaceOnEventList (pxEventList : ListId) (xTicksToWait : TickType)
  | xTaskRemoveFromEventList (pxEventList : ListId)
  | vTaskPriorityInherit (xMutexHolder : Option TaskId)
  | vTaskPriorityDisinherit (xMutexHolder : Option TaskId)
  | vTaskSetMutexInheritance (xEnable : Bool)
  | xTaskIncrementTick
  | vTaskSwitchContext
  | taskYIELD
deriving DecidableEq, Repr

namespace SchedSys

/-- The running task is not on its way to `taskYIELD`. -/
def mayCall (s : SchedSys) : Bool :=
  match s.sched.pxCurrentTCB with
  | some t => !s.yielding t
  | none => false

/-- The running task may call a blocking function. -/
def mayBlock (s : SchedSys) : Bool :=
  s.mayCall && decide (s.sched.xIdle ≠ s.sched.pxCurrentTCB)

/-- A mutex holder is NULL or a task that exists. -/
def validHandle (s : SchedSys) : Option TaskId → Bool
  | none => true
  | some t => decide (t < s.sched.uxCurrentNumberOfTasks)

/-- When an operation may be called.  `vTaskStartScheduler` runs once, and the
    timer is armed only at its end, so no tick precedes it. -/
def admits (s : SchedSys) : SchedOp → Bool
  | .xTaskCreate _ _ => true
  | .vTaskStartScheduler _ => !s.sched.xSchedulerRunning && decide (s.sched.xTickCount = 0)
  | .vTaskDelay n => decide (0 < n) && s.mayBlock
  | .vTaskPlaceOnEventList e _ => e.isEventList && s.mayBlock
  | .xTaskRemoveFromEventList e => e.isEventList && s.mayCall
  | .vTaskPriorityInherit h => s.validHandle h
  | .vTaskPriorityDisinherit h => s.validHandle h
  | .vTaskSetMutexInheritance _ => true
  | .xTaskIncrementTick => true
  | .vTaskSwitchContext => true
  | .taskYIELD => true

/-- The running task has reached, or has executed, its `taskYIELD`. -/
def setYielding (s : SchedSys) (b : Bool) : TaskId → Bool :=
  match s.sched.pxCurrentTCB with
  | some t => Function.update s.yielding t b
  | none => s.yielding

def exec (s : SchedSys) : SchedOp → Option SchedSys
  | .xTaskCreate memory p =>
      (FlintRTOS.xTaskCreate memory p s.sched).map fun r => ⟨r.2, s.yielding⟩
  | .vTaskStartScheduler memory =>
      (FlintRTOS.vTaskStartScheduler memory s.sched).map fun σ => ⟨σ, s.yielding⟩
  | .vTaskDelay n => (vTaskDelaySection n s.sched).map fun σ => ⟨σ, s.setYielding true⟩
  | .vTaskPlaceOnEventList e n =>
      (FlintRTOS.vTaskPlaceOnEventList e n s.sched).map fun σ => ⟨σ, s.setYielding true⟩
  | .xTaskRemoveFromEventList e =>
      (FlintRTOS.xTaskRemoveFromEventList e s.sched).map fun r => ⟨r.2, s.yielding⟩
  | .vTaskPriorityInherit h =>
      (FlintRTOS.vTaskPriorityInherit h s.sched).map fun σ => ⟨σ, s.yielding⟩
  | .vTaskPriorityDisinherit h =>
      (FlintRTOS.vTaskPriorityDisinherit h s.sched).map fun r => ⟨r.2, s.yielding⟩
  | .vTaskSetMutexInheritance b =>
      some ⟨FlintRTOS.vTaskSetMutexInheritance b s.sched, s.yielding⟩
  | .xTaskIncrementTick =>
      (FlintRTOS.xTaskIncrementTick s.sched).map fun σ => ⟨σ, s.yielding⟩
  | .vTaskSwitchContext => some ⟨FlintRTOS.vTaskSwitchContext s.sched, s.yielding⟩
  | .taskYIELD => some ⟨FlintRTOS.vTaskSwitchContext s.sched, s.setYielding false⟩

/-- The scheduler invariant, and: the running task is ready unless it has just
    blocked itself. -/
structure Inv (s : SchedSys) : Prop where
  sched : s.sched.Inv
  running : ∀ t, s.sched.pxCurrentTCB = some t → s.yielding t = false → s.sched.Ready t

end SchedSys

/-- The scheduler as a machine. -/
def scheduler : Machine SchedSys SchedOp where
  init := ⟨Sched.boot, fun _ => false⟩
  guard s a := s.admits a = true
  exec := SchedSys.exec

instance (s : SchedSys) (a : SchedOp) : Decidable (scheduler.guard s a) :=
  inferInstanceAs (Decidable (s.admits a = true))

/-! ### What an operation does -/

/-- Everything an admitted operation can do, through the effect relations. -/
inductive SchedEffect (s : SchedSys) : SchedOp → SchedSys → Prop where
  | created {memory : TaskMemory} {p : Nat} {σ : Sched} (hcreated : Created s.sched σ) :
      SchedEffect s (.xTaskCreate memory p) ⟨σ, s.yielding⟩
  | started {memory : TaskMemory} {σ : Sched} (hcreated : Created s.sched σ) :
      SchedEffect s (.vTaskStartScheduler memory) ⟨σ, s.yielding⟩
  | delayed {n : TickType} {t : TaskId} {σ : Sched} (hcur : s.sched.pxCurrentTCB = some t)
      (hready : s.sched.Ready t) (hblocked : Blocked t none n s.sched σ) :
      SchedEffect s (.vTaskDelay n) ⟨σ, s.setYielding true⟩
  | placed {e : ListId} {n : TickType} {t : TaskId} {σ : Sched}
      (hcur : s.sched.pxCurrentTCB = some t) (hready : s.sched.Ready t)
      (hblocked : Blocked t (some e) n s.sched σ) :
      SchedEffect s (.vTaskPlaceOnEventList e n) ⟨σ, s.setYielding true⟩
  | woken {e : ListId} {y : Bool} {σ : Sched} (hinv : σ.Inv) (hwake : EventWake e s.sched y σ) :
      SchedEffect s (.xTaskRemoveFromEventList e) ⟨σ, s.yielding⟩
  | inherited {holder : Option TaskId} {σ : Sched} (hchange : PriorityChange s.sched σ) :
      SchedEffect s (.vTaskPriorityInherit holder) ⟨σ, s.yielding⟩
  | disinherited {holder : Option TaskId} {σ : Sched} (hchange : PriorityChange s.sched σ) :
      SchedEffect s (.vTaskPriorityDisinherit holder) ⟨σ, s.yielding⟩
  | inheritance (b : Bool) : SchedEffect s (.vTaskSetMutexInheritance b)
      ⟨vTaskSetMutexInheritance b s.sched, s.yielding⟩
  | ticked {σ : Sched} (hwoke : WokeDue (s.sched.setTickCount (s.sched.xTickCount + 1)) σ) :
      SchedEffect s .xTaskIncrementTick ⟨σ, s.yielding⟩
  | switched : SchedEffect s .vTaskSwitchContext ⟨vTaskSwitchContext s.sched, s.yielding⟩
  | yielded : SchedEffect s .taskYIELD ⟨vTaskSwitchContext s.sched, s.setYielding false⟩

namespace SchedSys

variable {s : SchedSys}

theorem running_of_mayCall (h : s.mayCall = true) :
    ∃ t, s.sched.pxCurrentTCB = some t ∧ s.yielding t = false := by
  unfold mayCall at h
  split at h
  · rename_i t ht
    exact ⟨t, ht, by simpa using h⟩
  · cases h

theorem running_of_mayBlock (h : s.mayBlock = true) :
    ∃ t, s.sched.pxCurrentTCB = some t ∧ s.yielding t = false ∧ s.sched.xIdle ≠ some t := by
  rw [mayBlock, Bool.and_eq_true, decide_eq_true_iff] at h
  obtain ⟨t, hcur, hyield⟩ := running_of_mayCall h.1
  exact ⟨t, hcur, hyield, hcur ▸ h.2⟩

theorem of_validHandle {holder : Option TaskId} (h : s.validHandle holder = true) :
    ∀ t, holder = some t → t < s.sched.uxCurrentNumberOfTasks := by
  rintro t rfl
  simpa [validHandle] using h

/-- From a state that keeps the invariant no admitted call faults. -/
theorem Inv.effect (h : s.Inv) {a : SchedOp} (hadmits : s.admits a = true) :
    ∃ s', s.exec a = some s' ∧ SchedEffect s a s' := by
  cases a with
  | xTaskCreate memory p =>
    obtain ⟨r, σ, hexec, hcreated, _⟩ := xTaskCreate_inv h.sched memory p
    exact ⟨⟨σ, s.yielding⟩, by simp [exec, hexec], .created hcreated⟩
  | vTaskStartScheduler memory =>
    obtain ⟨_, htick⟩ := Bool.and_eq_true_iff.mp hadmits
    obtain ⟨σ, hexec, hcreated⟩ :=
      vTaskStartScheduler_inv h.sched memory (of_decide_eq_true htick)
    exact ⟨⟨σ, s.yielding⟩, by simp [exec, hexec], .started hcreated⟩
  | vTaskDelay n =>
    obtain ⟨_, hblock⟩ := Bool.and_eq_true_iff.mp hadmits
    obtain ⟨t, hcur, hyield, hidle⟩ := running_of_mayBlock hblock
    have hready := h.running t hcur hyield
    obtain ⟨σ, hexec, hblocked⟩ := vTaskDelaySection_inv h.sched n hcur hready hidle
    exact ⟨_, by simp [exec, hexec], .delayed hcur hready hblocked⟩
  | vTaskPlaceOnEventList e n =>
    obtain ⟨he, hblock⟩ := Bool.and_eq_true_iff.mp hadmits
    obtain ⟨t, hcur, hyield, hidle⟩ := running_of_mayBlock hblock
    have hready := h.running t hcur hyield
    obtain ⟨σ, hexec, hblocked⟩ := vTaskPlaceOnEventList_inv h.sched he n hcur hready hidle
    exact ⟨_, by simp [exec, hexec], .placed hcur hready hblocked⟩
  | xTaskRemoveFromEventList e =>
    obtain ⟨he, hcall⟩ := Bool.and_eq_true_iff.mp hadmits
    obtain ⟨t, hcur, _⟩ := running_of_mayCall hcall
    obtain ⟨y, σ, hexec, hinv, hwake⟩ := xTaskRemoveFromEventList_inv h.sched he hcur
    exact ⟨_, by simp [exec, hexec], .woken hinv hwake⟩
  | vTaskPriorityInherit holder =>
    obtain ⟨σ, hexec, hcase⟩ := vTaskPriorityInherit_inv h.sched (of_validHandle hadmits)
    refine ⟨⟨σ, s.yielding⟩, by simp [exec, hexec], .inherited ?_⟩
    rcases hcase with ⟨_, _, _, _, _, hre⟩ | ⟨_, rfl⟩
    · exact Or.inr ⟨_, _, hre⟩
    · exact Or.inl rfl
  | vTaskPriorityDisinherit holder =>
    obtain ⟨r, σ, hexec, hcase⟩ :=
      vTaskPriorityDisinherit_inv h.sched (of_validHandle hadmits)
    refine ⟨⟨σ, s.yielding⟩, by simp [exec, hexec], .disinherited ?_⟩
    rcases hcase with ⟨_, _, _, hre⟩ | ⟨_, rfl⟩
    · exact Or.inr ⟨_, _, hre⟩
    · exact Or.inl rfl
  | vTaskSetMutexInheritance b => exact ⟨_, rfl, .inheritance b⟩
  | xTaskIncrementTick =>
    obtain ⟨σ, hexec, hwoke⟩ := xTaskIncrementTick_spec h.sched
    exact ⟨⟨σ, s.yielding⟩, by simp [exec, hexec], .ticked hwoke⟩
  | vTaskSwitchContext => exact ⟨_, rfl, .switched⟩
  | taskYIELD => exact ⟨_, rfl, .yielded⟩

/-- Making other tasks ready or re-prioritising them does not unready the
    running task. -/
theorem Inv.of_ready (h : s.Inv) {σ : Sched} (hinv : σ.Inv)
    (hcur : σ.pxCurrentTCB = s.sched.pxCurrentTCB)
    (hready : ∀ t, s.sched.Ready t → σ.Ready t) : Inv ⟨σ, s.yielding⟩ := by
  refine ⟨hinv, ?_⟩
  intro t ht hyield
  exact hready t (h.running t (hcur ▸ ht) hyield)

/-- A task that has blocked itself is on its way to `taskYIELD`. -/
theorem Inv.of_blocked {t : TaskId} {e : Option ListId} {n : TickType} {σ : Sched}
    (hcur : s.sched.pxCurrentTCB = some t) (hblocked : Blocked t e n s.sched σ) :
    Inv ⟨σ, s.setYielding true⟩ := by
  refine ⟨hblocked.inv, ?_⟩
  obtain ⟨lists, rfl⟩ := hblocked.frame
  intro u hu hyield
  rw [Sched.setLists_pxCurrentTCB, hcur] at hu
  cases hu
  simp [setYielding, hcur] at hyield

end SchedSys

/-- **One operation** keeps the invariant. -/
theorem SchedEffect.inv {s s' : SchedSys} {a : SchedOp} (heffect : SchedEffect s a s')
    (h : s.Inv) : s'.Inv := by
  cases heffect with
  | created hcreated | started hcreated =>
    refine ⟨hcreated.inv, ?_⟩
    intro t ht hyield
    rcases hcreated.running ht with hold | hnew
    · exact hcreated.ready h.sched (h.running t hold hyield)
    · exact hnew
  | delayed hcur _ hblocked | placed hcur _ hblocked =>
    exact SchedSys.Inv.of_blocked hcur hblocked
  | woken hinv hwake =>
    refine h.of_ready hinv ?_ fun _ => hwake.ready
    obtain ⟨top, lists, rfl⟩ := hwake.frame
    rfl
  | inherited hchange | disinherited hchange =>
    rcases hchange with rfl | ⟨t, p, hre⟩
    · exact h
    · refine h.of_ready hre.inv ?_ hre.ready
      obtain ⟨top, lists, rfl⟩ := hre.frame
      rfl
  | inheritance b =>
    refine h.of_ready ?_ rfl fun _ ht => ht
    exact h.sched.congr rfl h.sched.ordered rfl rfl rfl rfl rfl id
  | ticked hwoke =>
    refine h.of_ready hwoke.inv ?_ fun _ => hwoke.ready
    obtain ⟨top, lists, rfl⟩ := hwoke.frame
    rfl
  | switched | yielded =>
    refine ⟨h.sched.switch, ?_⟩
    intro t ht _
    exact (h.sched.ready_of_switch ht).2

/-- Every schedule keeps the invariant. -/
theorem scheduler_inv {s : SchedSys} (h : scheduler.Reach s) : s.Inv := by
  refine h.invariant (P := SchedSys.Inv) ?_ ?_
  · refine ⟨Sched.boot_inv, ?_⟩
    intro t ht
    cases ht
  · rintro s a s' _ hinv ⟨hadmits, hexec⟩
    obtain ⟨s'', hexec', heffect⟩ := hinv.effect hadmits
    cases hexec.symm.trans hexec'
    exact heffect.inv hinv

/-- No schedule makes a scheduler function fault: in particular `uxListRemove`
    only meets linked items. -/
theorem scheduler_safe {s : SchedSys} (h : scheduler.Reach s) : scheduler.Safe s := by
  intro a hadmits
  obtain ⟨s', hexec, _⟩ := (scheduler_inv h).effect hadmits
  exact ⟨s', hexec⟩

theorem scheduler_effect {s s' : SchedSys} {a : SchedOp} (h : scheduler.Reach s)
    (hstep : scheduler.Step s a s') : SchedEffect s a s' := by
  obtain ⟨hadmits, hexec⟩ := hstep
  obtain ⟨s'', hexec', heffect⟩ := (scheduler_inv h).effect hadmits
  cases hexec.symm.trans hexec'
  exact heffect

/-! ### The lists of a reachable state -/

/-- The lists a task's state item may be in. -/
def stateLists (σ : Sched) (t : TaskId) : List ListId :=
  [xReadyTasksLists (σ.priority t), xDelayedTaskList, xSuspendedTaskList]

/-- **The scheduler lists over every schedule.**  A created task's state item is
    in exactly one list, and that is the ready list of its priority, the delayed
    or the suspended list; its event item is in at most one list, an event list,
    and in none while the task is in a ready list.  No operation faults:
    `uxListRemove` is never applied to an item that is in no list. -/
theorem scheduler_lists {s : SchedSys} (h : scheduler.Reach s) :
    (∀ t, t < s.sched.uxCurrentNumberOfTasks →
      (∃! l, xStateListItem t ∈ (s.sched.lists.list l).items) ∧
      (∀ l, xStateListItem t ∈ (s.sched.lists.list l).items → l ∈ stateLists s.sched t) ∧
      (∀ e e', xEventListItem t ∈ (s.sched.lists.list e).items →
        xEventListItem t ∈ (s.sched.lists.list e').items → e = e' ∧ e.isEventList) ∧
      (∀ p, xStateListItem t ∈ (s.sched.lists.list (xReadyTasksLists p)).items →
        ∀ e, xEventListItem t ∉ (s.sched.lists.list e).items)) ∧
    scheduler.Safe s := by
  refine ⟨?_, scheduler_safe h⟩
  have hinv := (scheduler_inv h).sched
  intro t ht
  have htok := hinv.tasks t ht
  have hstate : ∀ l, xStateListItem t ∈ (s.sched.lists.list l).items ↔
      s.sched.stateList t = some l := fun l => s.sched.lists.linked l _
  have hevent : ∀ l, xEventListItem t ∈ (s.sched.lists.list l).items ↔
      s.sched.eventList t = some l := fun l => s.sched.lists.linked l _
  refine ⟨?_, ?_, ?_, ?_⟩
  · obtain ⟨l, hl⟩ := hinv.stateList_isSome ht
    refine ⟨l, (hstate l).mpr hl, ?_⟩
    intro l' hl'
    exact Option.some.inj (((hstate l').mp hl').symm.trans hl)
  · intro l hl
    rcases htok.stateList_cases ((hstate l).mp hl) with rfl | rfl | rfl
    · simp [stateLists]
    · simp [stateLists]
    · simp [stateLists]
  · intro e e' he he'
    have he := (hevent e).mp he
    exact ⟨Option.some.inj (he.symm.trans ((hevent e').mp he')), htok.event e he⟩
  · intro p hp e he
    obtain ⟨u, hu, _, hready, _⟩ := hinv.mem_ready hp
    cases hu
    have hfree := (hinv.tasks t ht).ready_free hready
    rw [(hevent e).mp he] at hfree
    cases hfree

/-- A schedule with a task in each kind of list: task 2 delayed, task 1 waiting
    on a queue without a timeout, and task 0 boosted to task 1's priority. -/
def threeListsSchedule : List SchedOp :=
  [.xTaskCreate ⟨true, true⟩ 1, .xTaskCreate ⟨true, true⟩ 2, .xTaskCreate ⟨true, true⟩ 3,
    .vTaskStartScheduler ⟨true, true⟩, .vTaskSwitchContext, .vTaskDelay 5, .taskYIELD,
    .vTaskPriorityInherit (some 0), .vTaskPlaceOnEventList (xTasksWaitingToReceive 0) portMaxDelay,
    .taskYIELD, .xTaskIncrementTick]

theorem scheduler_lists_three : ∃ s, scheduler.Reach s ∧
    s.sched.uxCurrentNumberOfTasks = 4 ∧
    s.sched.stateList 0 = some (xReadyTasksLists 2) ∧
    s.sched.stateList 1 = some xSuspendedTaskList ∧
    s.sched.eventList 1 = some (xTasksWaitingToReceive 0) ∧
    s.sched.stateList 2 = some xDelayedTaskList ∧
    (∃! l, xStateListItem 0 ∈ (s.sched.lists.list l).items) ∧ scheduler.Safe s := by
  obtain ⟨s, hreach, hs⟩ := scheduler.exists_reach threeListsSchedule
    (fun s => s.sched.uxCurrentNumberOfTasks = 4 ∧
      s.sched.stateList 0 = some (xReadyTasksLists 2) ∧
      s.sched.stateList 1 = some xSuspendedTaskList ∧
      s.sched.eventList 1 = some (xTasksWaitingToReceive 0) ∧
      s.sched.stateList 2 = some xDelayedTaskList) (by decide)
  obtain ⟨hnumber, h0, h1, he1, h2⟩ := of_decide_eq_true hs
  obtain ⟨htasks, hsafe⟩ := scheduler_lists hreach
  exact ⟨s, hreach, hnumber, h0, h1, he1, h2, (htasks 0 (by rw [hnumber]; decide)).1, hsafe⟩

/-! ### Selection -/

/-- **Highest-priority selection.**  Once the idle task exists,
    `uxTopReadyPriority` bounds every non-empty ready list, and the switch
    selects a task of a ready list such that no task in a ready list has a
    higher priority. -/
theorem scheduler_selects_highest {s : SchedSys} (h : scheduler.Reach s) {i : TaskId}
    (hidle : s.sched.xIdle = some i) :
    (∀ p, (s.sched.lists.list (xReadyTasksLists p)).items ≠ [] →
      p ≤ s.sched.uxTopReadyPriority) ∧
    ∃ t, (vTaskSwitchContext s.sched).pxCurrentTCB = some t ∧
      xStateListItem t ∈ ((vTaskSwitchContext s.sched).lists.list
        (xReadyTasksLists (s.sched.priority t))).items ∧
      ∀ u p, xStateListItem u ∈ ((vTaskSwitchContext s.sched).lists.list
        (xReadyTasksLists p)).items → s.sched.priority u ≤ s.sched.priority t := by
  have hinv := (scheduler_inv h).sched
  constructor
  · intro p hp
    obtain ⟨j, hj⟩ := List.exists_mem_of_ne_nil _ hp
    obtain ⟨t, _, ht, hready, hprio⟩ := hinv.mem_ready hj
    rw [← hprio]
    exact (hinv.tasks t ht).top hready
  · obtain ⟨hlt, hready⟩ := hinv.idle i hidle
    obtain ⟨t, hsel, _, hrt, hmax⟩ := hinv.switch_selects hlt hready
    refine ⟨t, hsel, ?_, ?_⟩
    · simpa using mem_ready_list hrt
    · intro u p hu
      rw [vTaskSwitchContext_lists, ListStore.items_listGetOwnerOfNextEntry] at hu
      obtain ⟨u', hu', hlt', hready', _⟩ := hinv.mem_ready hu
      cases hu'
      exact hmax u hlt' hready'

theorem scheduler_selects_highest_three : ∃ s, scheduler.Reach s ∧
    s.sched.xIdle = some 3 ∧ (vTaskSwitchContext s.sched).pxCurrentTCB = some 0 ∧
    ∃ t, (vTaskSwitchContext s.sched).pxCurrentTCB = some t ∧
      ∀ u p, xStateListItem u ∈ ((vTaskSwitchContext s.sched).lists.list
        (xReadyTasksLists p)).items → s.sched.priority u ≤ s.sched.priority t := by
  obtain ⟨s, hreach, hs⟩ := scheduler.exists_reach threeListsSchedule
    (fun s => s.sched.xIdle = some 3 ∧
      (vTaskSwitchContext s.sched).pxCurrentTCB = some 0) (by decide)
  obtain ⟨hidle, hnext⟩ := of_decide_eq_true hs
  obtain ⟨t, hsel, _, hmax⟩ := (scheduler_selects_highest hreach hidle).2
  exact ⟨s, hreach, hidle, hnext, t, hsel, hmax⟩

/-! ### The tick -/

/-- The items of the tasks that the next tick leaves alone. -/
def keptByTick (σ : Sched) (i : ItemId) : Bool :=
  decide (¬ (σ.setTickCount (σ.xTickCount + 1)).Due i.task)

/-- **The tick readies exactly the due tasks.**  It ends; every task whose wake time
    the incremented count has reached is in the ready list of its priority and in
    no event list; the items of all other tasks are in the same lists in the same
    order, under the same cursors of the ready lists; and what is left in the
    delayed list is later. -/
theorem tick_readies_due {s : SchedSys} (h : scheduler.Reach s) :
    ∃ σ, xTaskIncrementTick s.sched = some σ ∧ σ.xTickCount = s.sched.xTickCount + 1 ∧
      (∀ t, xStateListItem t ∈ (s.sched.lists.list xDelayedTaskList).items →
        (s.sched.lists.item (xStateListItem t)).xItemValue ≤ s.sched.xTickCount + 1 →
        xStateListItem t ∈
          (σ.lists.list (xReadyTasksLists (s.sched.priority t))).items ∧
        ∀ e, xEventListItem t ∉ (σ.lists.list e).items) ∧
      (∀ l, (σ.lists.list l).items.filter (keptByTick s.sched) =
        (s.sched.lists.list l).items.filter (keptByTick s.sched)) ∧
      (∀ p, (σ.lists.list (xReadyTasksLists p)).index =
        (s.sched.lists.list (xReadyTasksLists p)).index) ∧
      ∀ i ∈ (σ.lists.list xDelayedTaskList).items, σ.xTickCount < (σ.lists.item i).xItemValue := by
  have hinv := (scheduler_inv h).sched
  obtain ⟨σ, hexec, hwoke⟩ := xTaskIncrementTick_spec hinv
  have hkept : ∀ i, (s.sched.setTickCount (s.sched.xTickCount + 1)).Due (ItemId.task i) →
      keptByTick s.sched i = false := fun i hi => decide_eq_false (not_not_intro hi)
  have horder := prvWakeLoop_keepsOrder _ (hinv.setTickCount (s.sched.xTickCount + 1)) hkept hexec
  have htick : σ.xTickCount = s.sched.xTickCount + 1 := by
    obtain ⟨top, lists, rfl⟩ := hwoke.frame
    rfl
  refine ⟨σ, hexec, htick, ?_, horder.items, ?_, ?_⟩
  · intro t hmem hle
    have hdue : (s.sched.setTickCount (s.sched.xTickCount + 1)).Due t :=
      ⟨(s.sched.lists.linked _ _).mp hmem, hle⟩
    obtain ⟨hready, hevent⟩ := hwoke.woken t hdue
    constructor
    · have hprio : σ.priority t = s.sched.priority t := by
        simp only [Sched.priority, hwoke.tcb]
        rfl
      rw [← hprio]
      exact mem_ready_list hready
    · intro e he
      have hlinked := (σ.lists.linked e _).mp he
      rw [← Sched.eventList, hevent] at hlinked
      cases hlinked
  · intro p
    refine horder.index _ ?_
    intro i hi
    -- a task in a ready list is not delayed, so it is not due
    obtain ⟨t, rfl, _, hready, _⟩ := hinv.mem_ready ((s.sched.lists.list _).index_mem i hi)
    refine decide_eq_true ?_
    rintro ⟨hstate, -⟩
    exact not_ready_of_blocked (Or.inl hstate) hready
  · intro i hi
    obtain ⟨t, rfl, _, hstate⟩ := hwoke.inv.mem_delayed hi
    exact UInt32.not_le.mp fun hle => hwoke.done t ⟨hstate, hle⟩

/-- Two tasks are due at the same tick, one of them with a timeout on an event list;
    a third is not. -/
theorem tick_readies_due_two : ∃ s, scheduler.Reach s ∧
    s.sched.eventList 1 = some (xTasksWaitingToReceive 0) ∧
    ∃ σ, xTaskIncrementTick s.sched = some σ ∧
      xStateListItem 1 ∈ (σ.lists.list (xReadyTasksLists (s.sched.priority 1))).items ∧
      (∀ e, xEventListItem 1 ∉ (σ.lists.list e).items) ∧
      xStateListItem 2 ∈ (σ.lists.list (xReadyTasksLists (s.sched.priority 2))).items := by
  obtain ⟨s, hreach, hs⟩ := scheduler.exists_reach
    [.xTaskCreate ⟨true, true⟩ 1, .xTaskCreate ⟨true, true⟩ 2, .xTaskCreate ⟨true, true⟩ 3,
      .vTaskStartScheduler ⟨true, true⟩, .vTaskSwitchContext, .vTaskDelay 1, .taskYIELD,
      .vTaskPlaceOnEventList (xTasksWaitingToReceive 0) 1, .taskYIELD, .vTaskDelay 2, .taskYIELD]
    (fun s => s.sched.eventList 1 = some (xTasksWaitingToReceive 0) ∧
      xStateListItem 1 ∈ (s.sched.lists.list xDelayedTaskList).items ∧
      (s.sched.lists.item (xStateListItem 1)).xItemValue ≤ s.sched.xTickCount + 1 ∧
      xStateListItem 2 ∈ (s.sched.lists.list xDelayedTaskList).items ∧
      (s.sched.lists.item (xStateListItem 2)).xItemValue ≤ s.sched.xTickCount + 1) (by decide)
  obtain ⟨hevent, hmem₁, hle₁, hmem₂, hle₂⟩ := of_decide_eq_true hs
  obtain ⟨σ, hexec, _, hwoken, _⟩ := tick_readies_due hreach
  obtain ⟨hready₁, hfree₁⟩ := hwoken 1 hmem₁ hle₁
  exact ⟨s, hreach, hevent, σ, hexec, hready₁, hfree₁, (hwoken 2 hmem₂ hle₂).1⟩

end FlintRTOS
