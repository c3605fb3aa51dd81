import FlintRTOS.BoundedWaiting
import FlintRTOS.PortContext

/-!
# Preemption

The scheduler of `tasks.c` and the entry code of `portASM.S` as one system.  A task that runs
may compute anything and call the kernel; between any two of its instructions an interrupt may
come, and an `svc` is taken where it executes one.  The processor then saves its program
counter and status, the entry code saves the task, the handler runs and chooses `pxCurrentTCB`,
and the task of that TCB is resumed.  Interrupts are masked from the entry to the `eret`, so
this is one action of the system.

The scheduler names the task to go on with by its TCB only.  That there is a frame to resume
it from is a property of the whole system: every task that exists and does not run has been
left or created, and its frame has been spared since.
-/

namespace FlintRTOS
namespace Preemption

open A64

/-! ### The system -/

/-- The scheduler, and the processor with its memory, for at most `n` tasks. -/
structure Sys (n : Nat) where
  sched : SchedSys
  port : PortState (Fin n)

/-- Why a task is left. -/
inductive Cause where
  | timer
  /-- An interrupt whose handler `xPortInstallIrq` has installed. -/
  | device
  /-- A synchronous exception, with its syndrome. -/
  | sync (esr : UInt64)

namespace Cause

def entry : Cause → Entry
  | timer => .irq
  | device => .irq
  | sync _ => .sync

/-- What the C code behind the entry calls of the scheduler: `vPortIrqHandlerC` for the
    interrupts, `vTaskSwitchContext` for `taskYIELD`. -/
def handle (s : SchedSys) : Cause → Option SchedSys
  | timer => (s.exec .xTaskIncrementTick).bind fun s => s.exec .vTaskSwitchContext
  | device => some s
  | sync _ => s.exec .taskYIELD

def switches : Cause → Bool
  | timer => true
  | device => false
  | sync _ => true

/-- The processor takes the exception. -/
def take (c : Cpu) : Cause → Cpu
  | timer => { c with spsr := c.pstate, elr := c.pc }
  | device => { c with spsr := c.pstate, elr := c.pc }
  | sync esr => { c with spsr := c.pstate, elr := c.pc, esr := esr }

end Cause

inductive Action where
  | create (memory : TaskMemory) (uxPriority : Nat) (pxTopOfStack pxCode pvParameters : UInt64)
  /-- `vTaskStartScheduler`; `c` is what the code before the first task leaves. -/
  | start (memory : TaskMemory) (pxTopOfStack prvIdleTask : UInt64) (c : Cpu)
  /-- The task that runs, or `main`, computes. -/
  | work (c : Cpu)
  /-- A critical section of the task that runs. -/
  | call (op : SchedOp)
  /-- From the exception to the `eret`; `c` is what the C code leaves. -/
  | interrupt (cause : Cause) (c : Cpu)

/-- The functions of the scheduler that neither create a task nor choose one. -/
def isCall : SchedOp → Bool
  | .vTaskDelay _ => true
  | .vTaskPlaceOnEventList _ _ => true
  | .xTaskRemoveFromEventList _ => true
  | .vTaskPriorityInherit _ => true
  | .vTaskPriorityDisinherit _ => true
  | .vTaskSetMutexInheritance _ => true
  | _ => false

section system

variable {n : Nat} (L : Layout (Fin n))

/-- The C code has stored `pxCurrentTCB`. -/
def setCurrent (t : Fin n) (c : Cpu) : Cpu :=
  { c with mem := Function.update c.mem L.pxCurrentTCB (L.tcb t) }

/-- `xTaskCreate` builds the frame of the task with the next number. -/
def newTask (memory : TaskMemory) (pxTopOfStack pxCode pvParameters : UInt64) (s : Sys n) :
    Option (PortState (Fin n)) :=
  if memory.stack && memory.tcb then
    if h : s.sched.sched.uxCurrentNumberOfTasks < n then
      L.exec s.port (.create ⟨_, h⟩ pxTopOfStack pxCode pvParameters)
    else none
  else some s.port

/-- The end of the entries and `vPortStartFirstTask`. -/
def goOn (sched : SchedSys) (c : Cpu) (port : PortState (Fin n)) : Option (PortState (Fin n)) := do
  let t ← sched.sched.pxCurrentTCB
  if h : t < n then
    L.exec { port with cpu := setCurrent L ⟨t, h⟩ c } (.resume ⟨t, h⟩)
  else none

def exec (s : Sys n) : Action → Option (Sys n)
  | .create memory uxPriority pxTopOfStack pxCode pvParameters => do
    let port ← newTask L memory pxTopOfStack pxCode pvParameters s
    let sched ← s.sched.exec (.xTaskCreate memory uxPriority)
    return ⟨sched, port⟩
  | .start memory pxTopOfStack prvIdleTask c => do
    let port ← newTask L memory pxTopOfStack prvIdleTask 0 s
    let sched ← s.sched.exec (.vTaskStartScheduler memory)
    let port ← goOn L sched c port
    return ⟨sched, port⟩
  | .work c => some { s with port := { s.port with cpu := c } }
  | .call op => (s.sched.exec op).map fun sched => { s with sched := sched }
  | .interrupt cause c => do
    let port ← L.exec { s.port with cpu := cause.take s.port.cpu } (.leave cause.entry)
    let sched ← cause.handle s.sched
    let port ← goOn L sched c port
    return ⟨sched, port⟩

/-- There is a number, and room on the stack, for the new task. -/
def Room (memory : TaskMemory) (pxTopOfStack : UInt64) (s : Sys n) : Prop :=
  (memory.stack && memory.tcb) = true →
    ∃ h : s.sched.sched.uxCurrentNumberOfTasks < n, L.Fits ⟨_, h⟩ (pxTopOfStack - 272)

/-- What the tasks and the C code write spares the frames of the suspended tasks; the stack
    of a task that is left has room for its frame; the idle task can be created. -/
def guard (s : Sys n) : Action → Prop
  | .create memory _ pxTopOfStack _ _ => Room L memory pxTopOfStack s
  | .start memory pxTopOfStack prvIdleTask c =>
    s.sched.admits (.vTaskStartScheduler memory) = true ∧ (memory.stack && memory.tcb) = true ∧
      Room L memory pxTopOfStack s ∧
      ∀ port, newTask L memory pxTopOfStack prvIdleTask 0 s = some port → L.guard port (.work c)
  | .work c => L.guard s.port (.work c)
  | .call op => s.port.running.isSome = true ∧ isCall op = true ∧ s.sched.admits op = true
  | .interrupt cause c =>
    L.guard { s.port with cpu := cause.take s.port.cpu } (.leave cause.entry) ∧
      ∀ port, L.exec { s.port with cpu := cause.take s.port.cpu } (.leave cause.entry) = some port →
        L.guard port (.work c)

/-- From the reset on. -/
def system (boot : Cpu) : Machine (Sys n) Action where
  init := ⟨scheduler.init, (L.machine boot).init⟩
  guard := guard L
  exec := exec L

/-- Where each task was left, or where it begins. -/
def note (g : Fin n → Context) (s : Sys n) : Action → Fin n → Context
  | .create memory _ pxTopOfStack pxCode pvParameters =>
    if h : (memory.stack && memory.tcb) = true ∧ s.sched.sched.uxCurrentNumberOfTasks < n then
      Function.update g ⟨_, h.2⟩
        (initialContext L.vPortTaskExit pxTopOfStack pxCode pvParameters)
    else g
  | .start _ pxTopOfStack prvIdleTask _ =>
    if h : s.sched.sched.uxCurrentNumberOfTasks < n then
      Function.update g ⟨_, h⟩ (initialContext L.vPortTaskExit pxTopOfStack prvIdleTask 0)
    else g
  | .work _ => g
  | .call _ => g
  | .interrupt cause _ =>
    match s.port.running with
    | some t => Function.update g t (contextOf (cause.take s.port.cpu))
    | none => g

theorem note_interrupt (g : Fin n → Context) {s : Sys n} {r : Fin n} (cause : Cause) (c : Cpu)
    (h : s.port.running = some r) : note L g s (.interrupt cause c) =
      Function.update g r (contextOf (cause.take s.port.cpu)) := by
  rw [note, h]

end system

/-! ### The frames -/

section frames

variable {n : Nat} {L : Layout (Fin n)} {boot : Cpu} {s s' : PortState (Fin n)}
  {g : Fin n → Context}

/-- Every suspended task has the frame on record. -/
def Records (L : Layout (Fin n)) (s : PortState (Fin n)) (g : Fin n → Context) : Prop :=
  ∀ u, s.suspended u = true → Saved s.cpu.mem (L.tcb u) (g u)

theorem Records.suspends {t : Fin n} {ctx : Context} (h : Records L s g) (hinv : PortInv L s)
    (hsuspends : Suspends L t ctx s s') : Records L s' (Function.update g t ctx) := by
  intro u hu
  by_cases hut : u = t
  · rw [hut, Function.update_self]
    exact hsuspends.saved
  · rw [hsuspends.suspended, Function.update_of_ne hut] at hu
    rw [Function.update_of_ne hut]
    exact (h u hu).of_keeps (hsuspends.keeps hinv hu hut).2

variable {c : Cpu}

theorem Records.work (h : Records L s g) (hguard : L.guard s (.work c)) :
    Records L { s with cpu := c } g := by
  intro u hu
  exact (h u hu).of_keeps fun a ha => hguard a (Or.inl ⟨u, hu, ha⟩)

theorem Records.resume {t : Fin n} (h : Records L s g) (hinv : PortInv L s)
    (hstep : (L.machine boot).Step s (.resume t) s') :
    Records L s' g ∧ s'.running = some t ∧ s'.suspended = Function.update s.suspended t false ∧
      contextOf s'.cpu = g t ∧ s'.cpu.pc = (g t).elr ∧ s'.cpu.pstate = (g t).spsr := by
  obtain ⟨hrunning, hsuspended, hmem, hctx⟩ := resumed hinv (h t hstep.1.2.1) hstep
  refine ⟨fun u hu => ?_, hrunning, hsuspended, hctx⟩
  rw [hmem]
  apply h u
  rw [hsuspended] at hu
  by_cases hut : u = t
  · rw [hut, Function.update_self] at hu
    cases hu
  · rwa [Function.update_of_ne hut] at hu

/-- The store to `pxCurrentTCB` spares the frames. -/
theorem guard_setCurrent (hinv : PortInv L s) (hnone : s.running = none)
    (hguard : L.guard s (.work c)) (t : Fin n) : L.guard s (.work (setCurrent L t c)) := by
  intro a ha
  rw [← hguard a ha]
  refine Function.update_of_ne ?_ _ _
  rcases ha with ⟨u, hu, rfl | ⟨k, hk, rfl⟩⟩ | ⟨hsome, -⟩
  · exact L.tcb_ne_current u
  · exact ((hinv.frame u hu).current_ne_word hk).symm
  · rw [hnone] at hsome
    cases hsome

/-- Whichever suspended task the kernel chooses can be resumed, and gets what is on record. -/
theorem exists_goOn {sched : SchedSys} {t : Nat} (hreach : (L.machine boot).Reach s)
    (hrec : Records L s g) (hnone : s.running = none) (hguard : L.guard s (.work c))
    (hcur : sched.sched.pxCurrentTCB = some t) (ht : t < n)
    (hsuspended : s.suspended ⟨t, ht⟩ = true) :
    ∃ s', goOn L sched c s = some s' ∧ (L.machine boot).Reach s' ∧ Records L s' g ∧
      L.Fits ⟨t, ht⟩ (g ⟨t, ht⟩).frame ∧
      s'.running = some ⟨t, ht⟩ ∧ s'.suspended = Function.update s.suspended ⟨t, ht⟩ false ∧
      contextOf s'.cpu = g ⟨t, ht⟩ ∧ s'.cpu.pc = (g ⟨t, ht⟩).elr ∧
      s'.cpu.pstate = (g ⟨t, ht⟩).spsr := by
  have hspared := guard_setCurrent (PortInv.reach hreach) hnone hguard ⟨t, ht⟩
  have hwork : (L.machine boot).Step s (.work (setCurrent L ⟨t, ht⟩ c))
      { s with cpu := setCurrent L ⟨t, ht⟩ c } := ⟨hspared, rfl⟩
  have hreach' := hreach.step hwork
  have hinv := PortInv.reach hreach'
  have hresume : (L.machine boot).guard { s with cpu := setCurrent L ⟨t, ht⟩ c }
      (.resume ⟨t, ht⟩) := ⟨hnone, hsuspended, Function.update_self ..⟩
  obtain ⟨s', hexec⟩ := hinv.safe _ hresume
  have hstep : (L.machine boot).Step { s with cpu := setCurrent L ⟨t, ht⟩ c }
      (.resume ⟨t, ht⟩) s' := ⟨hresume, hexec⟩
  obtain ⟨hrec', hrest⟩ := (hrec.work hspared).resume hinv hstep
  have hfits : L.Fits ⟨t, ht⟩ (g ⟨t, ht⟩).frame :=
    (hrec.work hspared _ hsuspended).top ▸ hinv.frame ⟨t, ht⟩ hsuspended
  refine ⟨s', ?_, hreach'.step hstep, hrec', hfits, hrest⟩
  rw [goOn, hcur, Option.bind_eq_bind, Option.bind_some, dif_pos ht]
  exact hexec

theorem exists_leave {r : Fin n} {cause : Cause} (hreach : (L.machine boot).Reach s)
    (hrec : Records L s g) (hrunning : s.running = some r)
    (hguard : L.guard { s with cpu := cause.take s.cpu } (.leave cause.entry)) :
    ∃ s', L.exec { s with cpu := cause.take s.cpu } (.leave cause.entry) = some s' ∧
      (L.machine boot).Reach s' ∧ s'.running = none ∧
      s'.suspended = Function.update s.suspended r true ∧
      Records L s' (Function.update g r (contextOf (cause.take s.cpu))) := by
  have hmem : ∀ c : Cpu, (cause.take c).mem = c.mem := by
    intro c
    cases cause <;> rfl
  have htake : L.guard s (.work (cause.take s.cpu)) := fun a _ => by rw [hmem]
  have hwork : (L.machine boot).Step s (.work (cause.take s.cpu))
      { s with cpu := cause.take s.cpu } := ⟨htake, rfl⟩
  have hreach' := hreach.step hwork
  have hinv := PortInv.reach hreach'
  have hleave : (L.machine boot).guard { s with cpu := cause.take s.cpu } (.leave cause.entry) :=
    hguard
  obtain ⟨s', hexec⟩ := hinv.safe _ hleave
  have hstep : (L.machine boot).Step { s with cpu := cause.take s.cpu } (.leave cause.entry) s' :=
    ⟨hleave, hexec⟩
  obtain ⟨hnone, hsuspends⟩ := suspends_of_leave hinv hrunning hstep
  exact ⟨s', hexec, hreach'.step hstep, hnone, hsuspends.suspended,
    (hrec.work htake).suspends hinv hsuspends⟩

end frames

/-! ### The choice -/

/-- The tasks that exist, the idle task and the start of the scheduler. -/
structure Same (σ σ' : Sched) : Prop where
  number : σ'.uxCurrentNumberOfTasks = σ.uxCurrentNumberOfTasks
  idle : σ'.xIdle = σ.xIdle
  started : σ'.xSchedulerRunning = σ.xSchedulerRunning

def creates : SchedOp → Bool
  | .xTaskCreate _ _ => true
  | .vTaskStartScheduler _ => true
  | _ => false

theorem same_of_effect {s s' : SchedSys} {op : SchedOp} (h : SchedEffect s op s')
    (hop : creates op = false) : Same s.sched s'.sched ∧
      (isCall op = true → s'.sched.pxCurrentTCB = s.sched.pxCurrentTCB) := by
  cases h with
  | created => cases hop
  | started => cases hop
  | delayed _ _ hblocked | placed _ _ hblocked =>
    obtain ⟨lists, rfl⟩ := hblocked.frame
    exact ⟨⟨rfl, rfl, rfl⟩, fun _ => rfl⟩
  | woken _ hwake =>
    obtain ⟨top, lists, rfl⟩ := hwake.frame
    exact ⟨⟨rfl, rfl, rfl⟩, fun _ => rfl⟩
  | inherited hchange | disinherited hchange =>
    rcases hchange with rfl | ⟨t, p, hre⟩
    · exact ⟨⟨rfl, rfl, rfl⟩, fun _ => rfl⟩
    · obtain ⟨top, lists, rfl⟩ := hre.frame
      exact ⟨⟨rfl, rfl, rfl⟩, fun _ => rfl⟩
  | inheritance => exact ⟨⟨rfl, rfl, rfl⟩, fun _ => rfl⟩
  | ticked hwoke =>
    obtain ⟨top, lists, rfl⟩ := hwoke.frame
    exact ⟨⟨rfl, rfl, rfl⟩, fun _ => rfl⟩
  | switched | yielded => exact ⟨⟨rfl, rfl, rfl⟩, fun hcall => by cases hcall⟩

/-- The next tick ends the task's delay or its wait. -/
def DueNext (σ : Sched) (t : TaskId) : Prop := (σ.setTickCount (σ.xTickCount + 1)).Due t

theorem exists_switch {σ : Sched} {i : TaskId} (hinv : σ.Inv) (hidle : σ.xIdle = some i) :
    ∃ t, (vTaskSwitchContext σ).pxCurrentTCB = some t ∧ t < σ.uxCurrentNumberOfTasks ∧
      Highest (vTaskSwitchContext σ) t := by
  obtain ⟨hlt, hready⟩ := hinv.idle i hidle
  obtain ⟨t, hcur, ht, hrt, hmax⟩ := hinv.switch_selects hlt hready
  exact ⟨t, hcur, ht, hrt, hmax⟩

theorem exists_handle {s : SchedSys} {i r : TaskId} (hreach : scheduler.Reach s)
    (hidle : s.sched.xIdle = some i) (hcur : s.sched.pxCurrentTCB = some r) (cause : Cause) :
    ∃ s' t, cause.handle s = some s' ∧ scheduler.Reach s' ∧ Same s.sched s'.sched ∧
      s'.sched.pxCurrentTCB = some t ∧ t < s.sched.uxCurrentNumberOfTasks ∧
      (cause.switches = true → Highest s'.sched t) ∧ (cause.switches = false → t = r) ∧
      (cause = .timer → ∀ u, DueNext s.sched u → s'.sched.Ready u) := by
  have hinv := scheduler_inv hreach
  cases cause with
  | timer =>
    obtain ⟨s₁, hexec, heffect⟩ := hinv.effect (a := .xTaskIncrementTick) rfl
    have htick : scheduler.Step s .xTaskIncrementTick s₁ := ⟨rfl, hexec⟩
    have hsame := (same_of_effect heffect rfl).1
    have hdue : ∀ u, DueNext s.sched u → s₁.sched.Ready u := by
      cases heffect with
      | ticked hwoke => exact fun u hu => (hwoke.woken u hu).1
    obtain ⟨t, hsel, hlt, hhigh⟩ :=
      exists_switch (heffect.inv hinv).sched (hsame.idle.trans hidle)
    refine ⟨⟨vTaskSwitchContext s₁.sched, s₁.yielding⟩, t, ?_, ?_,
      ⟨hsame.number, hsame.idle, hsame.started⟩, hsel, hsame.number ▸ hlt, fun _ => hhigh, nofun,
      fun _ => hdue⟩
    · rw [Cause.handle, hexec]
      rfl
    · exact (hreach.step htick).step (a := .vTaskSwitchContext) ⟨rfl, rfl⟩
  | device =>
    exact ⟨s, r, rfl, hreach, ⟨rfl, rfl, rfl⟩, hcur, hinv.sched.current r hcur, nofun,
      fun _ => rfl, nofun⟩
  | sync esr =>
    obtain ⟨t, hsel, hlt, hhigh⟩ := exists_switch hinv.sched hidle
    have hyield : scheduler.Step s .taskYIELD ⟨vTaskSwitchContext s.sched, s.setYielding false⟩ :=
      ⟨rfl, rfl⟩
    exact ⟨_, t, rfl, hreach.step hyield, ⟨rfl, rfl, rfl⟩, hsel, hlt, fun _ => hhigh, nofun,
      nofun⟩

/-- The new task has the next number, and the first task is the current one. -/
structure Joins (σ σ' : Sched) : Prop where
  number : σ'.uxCurrentNumberOfTasks = σ.uxCurrentNumberOfTasks + 1
  current : σ'.pxCurrentTCB = some (σ.pxCurrentTCB.getD σ.uxCurrentNumberOfTasks)
  idle : σ'.xIdle = σ.xIdle
  started : σ'.xSchedulerRunning = σ.xSchedulerRunning

theorem exists_xTaskCreate {σ : Sched} (hinv : σ.Inv) (memory : TaskMemory) (p : Nat) :
    ∃ r σ', xTaskCreate memory p σ = some (r, σ') ∧
      ((memory.stack && memory.tcb) = true → r = pdPass ∧ Joins σ σ') ∧
      ((memory.stack && memory.tcb) = false →
        Same σ σ' ∧ σ'.pxCurrentTCB = σ.pxCurrentTCB) := by
  obtain ⟨hfree, hstate, hevent⟩ := hinv.free
  obtain ⟨lists, -, ⟨hmem, hexec, -⟩ | ⟨hmem, hexec, -⟩⟩ :=
    xTaskCreate_spec memory p hfree hstate hevent
  · refine ⟨_, _, hexec, fun _ => ⟨rfl, rfl, ?_, rfl, rfl⟩, fun hno => ?_⟩
    · cases hcur : σ.pxCurrentTCB <;> simp [hcur]
    · rw [hmem] at hno
      cases hno
  · refine ⟨_, _, hexec, fun hyes => ?_, fun _ => ⟨⟨rfl, rfl, rfl⟩, rfl⟩⟩
    rw [hmem] at hyes
    cases hyes

/-! ### The system keeps the frames -/

section coupled

variable {n : Nat} {L : Layout (Fin n)} {boot : Cpu} {s : Sys n} {g : Fin n → Context}

/-- The processor runs the task the scheduler has chosen, and every other task is suspended,
    with the frame on record. -/
structure Coupled (L : Layout (Fin n)) (boot : Cpu) (s : Sys n) (g : Fin n → Context) : Prop where
  sched : scheduler.Reach s.sched
  port : (L.machine boot).Reach s.port
  records : Records L s.port g
  number : s.sched.sched.uxCurrentNumberOfTasks ≤ n
  suspended : ∀ t : Fin n, s.port.suspended t = true ↔
    t.val < s.sched.sched.uxCurrentNumberOfTasks ∧ s.port.running ≠ some t
  current : ∀ t, s.port.running = some t → s.sched.sched.pxCurrentTCB = some t.val
  started : s.sched.sched.xSchedulerRunning = s.port.running.isSome
  idle : s.port.running.isSome = true → s.sched.sched.xIdle.isSome = true

theorem Coupled.init : Coupled L boot (system L boot).init g where
  sched := .init
  port := .init
  records := fun _ hu => (Bool.false_ne_true hu).elim
  number := Nat.zero_le n
  suspended := fun _ =>
    ⟨fun h => (Bool.false_ne_true h).elim, fun h => absurd h.1 (Nat.not_lt_zero _)⟩
  current := nofun
  started := rfl
  idle := nofun

theorem Coupled.lt_of_running (h : Coupled L boot s g) {t : Fin n}
    (ht : s.port.running = some t) : t.val < s.sched.sched.uxCurrentNumberOfTasks :=
  (scheduler_inv h.sched).sched.current _ (h.current t ht)

/-- A scheduler with the same tasks and the same choice. -/
theorem Coupled.of_same (h : Coupled L boot s g) {sched : SchedSys}
    (hreach : scheduler.Reach sched) (hsame : Same s.sched.sched sched.sched)
    (hcur : sched.sched.pxCurrentTCB = s.sched.sched.pxCurrentTCB) :
    Coupled L boot { s with sched := sched } g where
  sched := hreach
  port := h.port
  records := h.records
  number := hsame.number ▸ h.number
  suspended := fun t => by
    change _ ↔ t.val < sched.sched.uxCurrentNumberOfTasks ∧ _
    rw [hsame.number]
    exact h.suspended t
  current := fun t ht => hcur.trans (h.current t ht)
  started := hsame.started.trans h.started
  idle := fun hsome => by
    change sched.sched.xIdle.isSome = true
    rw [hsame.idle]
    exact h.idle hsome

variable {memory : TaskMemory} {pxTopOfStack : UInt64} {c : Cpu}

/-- The frame of a new task, which is suspended from the beginning. -/
theorem Coupled.exists_frame (h : Coupled L boot s g) (pxCode pvParameters : UInt64)
    (hmem : (memory.stack && memory.tcb) = true) (hroom : Room L memory pxTopOfStack s) :
    ∃ port, ∃ hlt : s.sched.sched.uxCurrentNumberOfTasks < n,
      newTask L memory pxTopOfStack pxCode pvParameters s = some port ∧
      (L.machine boot).Reach port ∧ port.running = s.port.running ∧
      Records L port (Function.update g ⟨_, hlt⟩
        (initialContext L.vPortTaskExit pxTopOfStack pxCode pvParameters)) ∧
      ∀ t : Fin n, port.suspended t = true ↔
        t.val < s.sched.sched.uxCurrentNumberOfTasks + 1 ∧ s.port.running ≠ some t := by
  obtain ⟨hlt, hfits⟩ := hroom hmem
  have hfresh : s.port.suspended ⟨_, hlt⟩ = false :=
    Bool.eq_false_iff.mpr fun hsusp => Nat.lt_irrefl _ ((h.suspended _).mp hsusp).1
  have hother : s.port.running ≠ some ⟨_, hlt⟩ := fun hrun =>
    Nat.lt_irrefl _ (h.lt_of_running hrun)
  have hguard : (L.machine boot).guard s.port
      (.create ⟨_, hlt⟩ pxTopOfStack pxCode pvParameters) := ⟨hfresh, hother, hfits⟩
  have hinv := PortInv.reach h.port
  obtain ⟨port, hexec⟩ := hinv.safe _ hguard
  have hstep : (L.machine boot).Step s.port
      (.create ⟨_, hlt⟩ pxTopOfStack pxCode pvParameters) port := ⟨hguard, hexec⟩
  obtain ⟨-, hrunning, hsuspends⟩ := suspends_of_create hstep
  refine ⟨port, hlt, ?_, h.port.step hstep, hrunning, h.records.suspends hinv hsuspends,
    fun t => ?_⟩
  · rw [newTask, hmem, if_pos rfl, dif_pos hlt]
    exact hexec
  · rw [hsuspends.suspended]
    by_cases htn : t = ⟨_, hlt⟩
    · simp [htn, hother]
    · have hne : t.val ≠ s.sched.sched.uxCurrentNumberOfTasks := fun heq => htn (Fin.ext heq)
      rw [Function.update_of_ne htn, h.suspended t]
      exact and_congr_left fun _ => by omega

/-- The task runs on its own stack, from where it was left or from its beginning. -/
structure Resumed (L : Layout (Fin n)) (s : Sys n) (g : Fin n → Context) (t : Fin n) : Prop where
  room : L.Fits t (g t).frame
  running : s.port.running = some t
  current : s.sched.sched.pxCurrentTCB = some t.val
  registers : s.port.cpu.x = (g t).x
  stack : s.port.cpu.sp = (g t).sp
  pc : s.port.cpu.pc = (g t).elr
  status : s.port.cpu.pstate = (g t).spsr

/-- Between two tasks all of them are suspended, so the chosen one can go on. -/
theorem exists_resumed {sched : SchedSys} {port : PortState (Fin n)} {t : TaskId}
    (hsched : scheduler.Reach sched) (hnumber : sched.sched.uxCurrentNumberOfTasks ≤ n)
    (hidle : sched.sched.xIdle.isSome = true) (hstarted : sched.sched.xSchedulerRunning = true)
    (hcur : sched.sched.pxCurrentTCB = some t) (hreach : (L.machine boot).Reach port)
    (hrec : Records L port g) (hnone : port.running = none) (hsuspended : ∀ u : Fin n,
      port.suspended u = true ↔ u.val < sched.sched.uxCurrentNumberOfTasks)
    (hguard : L.guard port (.work c)) :
    ∃ port' u, goOn L sched c port = some port' ∧ Coupled L boot ⟨sched, port'⟩ g ∧ u.val = t ∧
      Resumed L ⟨sched, port'⟩ g u := by
  have hlt := (scheduler_inv hsched).sched.current t hcur
  have ht : t < n := Nat.lt_of_lt_of_le hlt hnumber
  obtain ⟨port', hexec, hreach', hrec', hfits, hrunning, hsusp, hctx, hpc, hpstate⟩ :=
    exists_goOn hreach hrec hnone hguard hcur ht ((hsuspended ⟨t, ht⟩).mpr hlt)
  refine ⟨port', ⟨t, ht⟩, hexec, ⟨hsched, hreach', hrec', hnumber, fun u => ?_, fun u hu => ?_, ?_,
    fun _ => hidle⟩, rfl, hfits, hrunning, hcur, congrArg Context.x hctx, congrArg Context.sp hctx,
    hpc, hpstate⟩
  · change port'.suspended u = true ↔ _ ∧ port'.running ≠ some u
    rw [hsusp, hrunning]
    by_cases hut : u = ⟨t, ht⟩
    · simp [hut]
    · rw [Function.update_of_ne hut, hsuspended u]
      exact ⟨fun h => ⟨h, fun heq => hut (Option.some.inj heq).symm⟩, fun h => h.1⟩
  · cases hrunning.symm.trans hu
    exact hcur
  · change _ = port'.running.isSome
    rw [hrunning, hstarted]
    rfl

theorem Coupled.create (h : Coupled L boot s g) (uxPriority : Nat) (pxCode pvParameters : UInt64)
    (hroom : Room L memory pxTopOfStack s) :
    ∃ s', exec L s (.create memory uxPriority pxTopOfStack pxCode pvParameters) = some s' ∧
      Coupled L boot s'
        (note L g s (.create memory uxPriority pxTopOfStack pxCode pvParameters)) := by
  obtain ⟨r, σ, hcreate, hjoins, hsame⟩ :=
    exists_xTaskCreate (scheduler_inv h.sched).sched memory uxPriority
  have hexec : s.sched.exec (.xTaskCreate memory uxPriority) = some ⟨σ, s.sched.yielding⟩ := by
    rw [SchedSys.exec, hcreate]
    rfl
  have hstep : scheduler.Step s.sched (.xTaskCreate memory uxPriority) ⟨σ, s.sched.yielding⟩ :=
    ⟨rfl, hexec⟩
  cases hmem : memory.stack && memory.tcb with
  | true =>
    obtain ⟨port, hlt, hnew, hreach, hrunning, hrec, hsusp⟩ :=
      h.exists_frame pxCode pvParameters hmem hroom
    have hnote : note L g s (.create memory uxPriority pxTopOfStack pxCode pvParameters) =
        Function.update g ⟨_, hlt⟩
          (initialContext L.vPortTaskExit pxTopOfStack pxCode pvParameters) :=
      dif_pos ⟨hmem, hlt⟩
    obtain ⟨-, hjoin⟩ := hjoins hmem
    refine ⟨⟨⟨σ, s.sched.yielding⟩, port⟩, by simp only [exec, hnew, hexec]; rfl, ?_⟩
    rw [hnote]
    refine ⟨h.sched.step hstep, hreach, hrec, hjoin.number ▸ hlt, fun t => ?_, fun t ht => ?_, ?_,
      fun hsome => ?_⟩
    · change port.suspended t = true ↔ t.val < σ.uxCurrentNumberOfTasks ∧ port.running ≠ some t
      rw [hjoin.number, hrunning]
      exact hsusp t
    · change σ.pxCurrentTCB = some t.val
      rw [hjoin.current, h.current t (hrunning ▸ ht)]
      rfl
    · exact hjoin.started.trans (h.started.trans (by rw [hrunning]))
    · change σ.xIdle.isSome = true
      rw [hjoin.idle]
      exact h.idle (hrunning ▸ hsome)
  | false =>
    have hnew : newTask L memory pxTopOfStack pxCode pvParameters s = some s.port := by
      rw [newTask, hmem]
      rfl
    have hnote : note L g s (.create memory uxPriority pxTopOfStack pxCode pvParameters) = g :=
      dif_neg fun hcond => by rw [hmem] at hcond; exact Bool.false_ne_true hcond.1
    refine ⟨⟨⟨σ, s.sched.yielding⟩, s.port⟩, by simp only [exec, hnew, hexec]; rfl, ?_⟩
    rw [hnote]
    exact h.of_same (h.sched.step hstep) (hsame hmem).1 (hsame hmem).2

theorem Coupled.start (h : Coupled L boot s g) {prvIdleTask : UInt64}
    (hguard : guard L s (.start memory pxTopOfStack prvIdleTask c)) :
    ∃ s' t, exec L s (.start memory pxTopOfStack prvIdleTask c) = some s' ∧
      Coupled L boot s' (note L g s (.start memory pxTopOfStack prvIdleTask c)) ∧
      Resumed L s' (note L g s (.start memory pxTopOfStack prvIdleTask c)) t := by
  obtain ⟨hadmits, hmem, hroom, hwork⟩ := hguard
  obtain ⟨port, hlt, hnew, hreach, hrunning, hrec, hsusp⟩ := h.exists_frame prvIdleTask 0 hmem hroom
  obtain ⟨r, σ, hcreate, hjoins, -⟩ :=
    exists_xTaskCreate (scheduler_inv h.sched).sched memory 0
  obtain ⟨rfl, hjoin⟩ := hjoins hmem
  have hexec : s.sched.exec (.vTaskStartScheduler memory) =
      some ⟨σ.started (some s.sched.sched.uxCurrentNumberOfTasks), s.sched.yielding⟩ := by
    rw [SchedSys.exec, vTaskStartScheduler, hcreate]
    rfl
  have hstep : scheduler.Step s.sched (.vTaskStartScheduler memory)
      ⟨σ.started (some s.sched.sched.uxCurrentNumberOfTasks), s.sched.yielding⟩ :=
    ⟨hadmits, hexec⟩
  -- the scheduler has not been started, so no task runs yet
  have hnone : s.port.running = none := by
    have hstarted := h.started
    rw [SchedSys.admits, Bool.and_eq_true, Bool.not_eq_true'] at hadmits
    rw [hadmits.1] at hstarted
    exact Option.not_isSome_iff_eq_none.mp (Bool.eq_false_iff.mp hstarted.symm)
  have hnote : note L g s (.start memory pxTopOfStack prvIdleTask c) =
      Function.update g ⟨_, hlt⟩ (initialContext L.vPortTaskExit pxTopOfStack prvIdleTask 0) :=
    dif_pos hlt
  rw [hnote]
  have hall : ∀ u : Fin n, port.suspended u = true ↔ u.val < σ.uxCurrentNumberOfTasks := by
    intro u
    rw [hsusp u, hjoin.number, hnone]
    exact and_iff_left (Option.some_ne_none u).symm
  obtain ⟨port', u, hgo, hcoupled, -, hresumed⟩ := exists_resumed (h.sched.step hstep)
    (hjoin.number ▸ hlt) rfl rfl hjoin.current hreach hrec (hrunning.trans hnone) hall
    (hwork port hnew)
  refine ⟨_, u, ?_, hcoupled, hresumed⟩
  simp only [exec, hnew, hexec, Option.bind_eq_bind, Option.bind_some, hgo]
  rfl

theorem Coupled.interrupt (h : Coupled L boot s g) {cause : Cause}
    (hguard : guard L s (.interrupt cause c)) :
    ∃ s' r t, exec L s (.interrupt cause c) = some s' ∧ s.port.running = some r ∧
      Coupled L boot s' (note L g s (.interrupt cause c)) ∧
      Resumed L s' (note L g s (.interrupt cause c)) t ∧
      (cause.switches = true → Highest s'.sched.sched t) ∧ (cause.switches = false → t = r) ∧
      (cause = .timer → ∀ u, DueNext s.sched.sched u → s'.sched.sched.Ready u) := by
  obtain ⟨hleave, hwork⟩ := hguard
  obtain ⟨r, hrunning, -⟩ := hleave.1
  change s.port.running = some r at hrunning
  obtain ⟨port, hexec, hreach, hnone, hsusp, hrec⟩ :=
    exists_leave h.port h.records hrunning hleave
  obtain ⟨i, hidle⟩ := Option.isSome_iff_exists.mp (h.idle (by rw [hrunning]; rfl))
  obtain ⟨sched, t, hhandle, hsched, hsame, hcur, hlt, hhigh, hstay, hdue⟩ :=
    exists_handle h.sched hidle (h.current r hrunning) cause
  rw [note_interrupt L g cause c hrunning]
  have hstarted : sched.sched.xSchedulerRunning = true := by
    rw [hsame.started, h.started, hrunning]
    rfl
  have hall : ∀ u : Fin n,
      port.suspended u = true ↔ u.val < sched.sched.uxCurrentNumberOfTasks := by
    intro u
    rw [hsusp, hsame.number]
    by_cases hur : u = r
    · rw [hur, Function.update_self]
      exact ⟨fun _ => h.lt_of_running hrunning, fun _ => rfl⟩
    · rw [Function.update_of_ne hur, h.suspended u, hrunning]
      exact ⟨fun hu => hu.1, fun hu => ⟨hu, fun heq => hur (Option.some.inj heq).symm⟩⟩
  obtain ⟨port', u, hgo, hcoupled, rfl, hresumed⟩ := exists_resumed hsched
    (hsame.number ▸ h.number) (by rw [hsame.idle, hidle]; rfl) hstarted hcur hreach hrec hnone
    hall (hwork port hexec)
  refine ⟨_, r, u, ?_, hrunning, hcoupled, hresumed, hhigh, fun hc => Fin.ext (hstay hc), hdue⟩
  simp only [exec, hexec, hhandle, Option.bind_eq_bind, Option.bind_some, hgo]
  rfl

/-- Every admitted action can be taken and keeps the coupling. -/
theorem Coupled.step (h : Coupled L boot s g) {a : Action} (hguard : guard L s a) :
    ∃ s', exec L s a = some s' ∧ Coupled L boot s' (note L g s a) := by
  cases a with
  | create memory uxPriority pxTopOfStack pxCode pvParameters =>
    exact h.create uxPriority pxCode pvParameters hguard
  | start memory pxTopOfStack prvIdleTask c =>
    obtain ⟨s', t, hexec, hcoupled, -⟩ := h.start hguard
    exact ⟨s', hexec, hcoupled⟩
  | work c =>
    have hstep : (L.machine boot).Step s.port (.work c) { s.port with cpu := c } := ⟨hguard, rfl⟩
    exact ⟨_, rfl, h.sched, h.port.step hstep, h.records.work hguard, h.number, h.suspended,
      h.current, h.started, h.idle⟩
  | call op =>
    obtain ⟨-, hcall, hadmits⟩ := hguard
    obtain ⟨sched, hexec, heffect⟩ := (scheduler_inv h.sched).effect hadmits
    have hstep : scheduler.Step s.sched op sched := ⟨hadmits, hexec⟩
    obtain ⟨hsame, hcur⟩ := same_of_effect heffect (by cases op <;> first | rfl | cases hcall)
    refine ⟨⟨sched, s.port⟩, by rw [exec, hexec]; rfl, ?_⟩
    exact h.of_same (h.sched.step hstep) hsame (hcur hcall)
  | interrupt cause c =>
    obtain ⟨s', r, t, hexec, -, hcoupled, -⟩ := h.interrupt hguard
    exact ⟨s', hexec, hcoupled⟩

theorem Coupled.reach {g₀ : Fin n → Context} {x : Sys n × (Fin n → Context)}
    (h : ((system L boot).ghost g₀ (note L)).Reach x) : Coupled L boot x.1 x.2 := by
  refine h.invariant (P := fun x => Coupled L boot x.1 x.2) Coupled.init ?_
  intro x a y _ hcoupled hstep
  obtain ⟨⟨hguard, hexec⟩, hnote⟩ := Machine.ghost_step.mp hstep
  obtain ⟨s', hexec', hnext⟩ := hcoupled.step hguard
  cases hexec.symm.trans hexec'
  rw [hnote]
  exact hnext

end coupled

/-- In every run of tasks, kernel calls and interrupts nothing faults, and the processor runs
    the task of `pxCurrentTCB`.  The first task begins at its function.  An interrupt, or a
    `taskYIELD`, saves what the task that runs has in its registers; the task that runs
    afterwards finds all of its own as it was left, or begins.  After a tick or a yield that
    is a ready task of the highest priority, the tasks that the tick was to wake being ready;
    after a device interrupt it is the one that was interrupted. -/
theorem preemption_resumes_highest {n : Nat} (L : Layout (Fin n)) (boot : Cpu) :
    (∀ s, (system L boot).Reach s → (system L boot).Safe s) ∧
    ∀ (g₀ : Fin n → Context) (x : Sys n × (Fin n → Context)) (a : Action)
      (y : Sys n × (Fin n → Context)),
      ((system L boot).ghost g₀ (note L)).Reach x → ((system L boot).ghost g₀ (note L)).Step x a y →
      (∀ t, y.1.port.running = some t → y.1.sched.sched.pxCurrentTCB = some t.val) ∧
      (∀ memory pxTopOfStack prvIdleTask c, a = .start memory pxTopOfStack prvIdleTask c →
        ∃ t, Resumed L y.1 y.2 t) ∧
      ∀ cause c, a = .interrupt cause c →
        ∃ r t, x.1.port.running = some r ∧ y.2 r = contextOf (cause.take x.1.port.cpu) ∧
          Resumed L y.1 y.2 t ∧ (cause.switches = true → Highest y.1.sched.sched t) ∧
          (cause.switches = false → t = r) ∧
          (cause = .timer → ∀ u, DueNext x.1.sched.sched u → y.1.sched.sched.Ready u) := by
  refine ⟨fun s hreach a hguard => ?_, fun g₀ x a y hreach hstep => ?_⟩
  · obtain ⟨g, hghost⟩ := hreach.exists_ghost (fun _ => contextOf boot) (note L)
    obtain ⟨s', hexec, -⟩ := (Coupled.reach hghost).step hguard
    exact ⟨s', hexec⟩
  · have hcoupled := Coupled.reach hreach
    obtain ⟨⟨hguard, hexec⟩, hnote⟩ := Machine.ghost_step.mp hstep
    refine ⟨(Coupled.reach (hreach.step hstep)).current, ?_, ?_⟩
    · rintro memory pxTopOfStack prvIdleTask c rfl
      obtain ⟨s', t, hexec', -, hresumed⟩ := hcoupled.start hguard
      cases hexec.symm.trans hexec'
      rw [hnote]
      exact ⟨t, hresumed⟩
    · rintro cause c rfl
      obtain ⟨s', r, t, hexec', hrunning, -, hresumed, hrest⟩ := hcoupled.interrupt hguard
      cases hexec.symm.trans hexec'
      refine ⟨r, t, hrunning, ?_, ?_, hrest⟩
      · rw [hnote, note_interrupt L x.2 cause c hrunning, Function.update_self]
      · rw [hnote]
        exact hresumed

/-- A task and the idle task, with their stacks side by side. -/
def idleAndOne : Layout (Fin 2) where
  pxCurrentTCB := 0x30
  vPortTaskExit := 0x40
  tcb t := if t.val = 0 then 16 else 24
  stackLo t := if t.val = 0 then 0x1000 else 0x2000
  stackHi t := if t.val = 0 then 0x2000 else 0x3000
  aligned_current := by decide
  aligned_tcb := by decide
  stack_le := by decide
  stacks_disjoint := by decide
  tcb_inj := by decide
  tcb_ne_current := by decide
  tcb_outside := by decide
  current_outside := by decide

theorem sched_of_create {n : Nat} {L : Layout (Fin n)} {s s' : Sys n} {memory : TaskMemory}
    {uxPriority : Nat} {pxTopOfStack pxCode pvParameters : UInt64}
    (h : exec L s (.create memory uxPriority pxTopOfStack pxCode pvParameters) = some s') :
    s.sched.exec (.xTaskCreate memory uxPriority) = some s'.sched := by
  rw [exec, Option.bind_eq_bind] at h
  obtain ⟨port, -, h⟩ := Option.bind_eq_some_iff.mp h
  obtain ⟨sched, hsched, h⟩ := Option.bind_eq_some_iff.mp h
  cases h
  exact hsched

/-- A task is created and started with the idle task behind it; then the timer interrupts. -/
theorem preemption_resumes_highest_two :
    ∃ x y c t, ((system idleAndOne resetCpu).ghost (fun _ => contextOf resetCpu)
        (note idleAndOne)).Reach x ∧
      ((system idleAndOne resetCpu).ghost (fun _ => contextOf resetCpu) (note idleAndOne)).Step x
        (.interrupt .timer c) y ∧
      Resumed idleAndOne y.1 y.2 t ∧ Highest y.1.sched.sched t := by
  have hrun := (preemption_resumes_highest idleAndOne resetCpu).2 fun _ => contextOf resetCpu
  have hsafe := (preemption_resumes_highest idleAndOne resetCpu).1
  -- the task
  have hroom : Room idleAndOne ⟨true, true⟩ 0x2000 (system idleAndOne resetCpu).init :=
    fun _ => ⟨by decide, by decide⟩
  obtain ⟨s₁, hexec₁⟩ := hsafe _ .init (.create ⟨true, true⟩ 1 0x2000 0x100 7) hroom
  have hstep₁ : (system idleAndOne resetCpu).Step (system idleAndOne resetCpu).init
      (.create ⟨true, true⟩ 1 0x2000 0x100 7) s₁ := ⟨hroom, hexec₁⟩
  have hreach₁ := Machine.Reach.init.step hstep₁
  have hsched : s₁.sched.sched.uxCurrentNumberOfTasks = 1 ∧
      s₁.sched.admits (.vTaskStartScheduler ⟨true, true⟩) = true := by
    have hany : ((scheduler.exec scheduler.init (.xTaskCreate ⟨true, true⟩ 1)).any fun s =>
        decide (s.sched.uxCurrentNumberOfTasks = 1 ∧
          s.admits (.vTaskStartScheduler ⟨true, true⟩) = true)) = true := by decide
    have hsome : scheduler.exec scheduler.init (.xTaskCreate ⟨true, true⟩ 1) = some s₁.sched :=
      sched_of_create hexec₁
    rw [hsome] at hany
    exact of_decide_eq_true hany
  -- the idle task, and the start
  have hroom₁ : Room idleAndOne ⟨true, true⟩ 0x3000 s₁ := by
    intro _
    rw [hsched.1]
    exact ⟨by decide, by decide⟩
  obtain ⟨g₁, hghost₁⟩ := hreach₁.exists_ghost (fun _ => contextOf resetCpu) (note idleAndOne)
  obtain ⟨port, -, hnew, -⟩ := (Coupled.reach hghost₁).exists_frame 0x200 0 rfl hroom₁
  have hguard₁ : (system idleAndOne resetCpu).guard s₁
      (.start ⟨true, true⟩ 0x3000 0x200 port.cpu) := by
    refine ⟨hsched.2, rfl, hroom₁, fun port' hport' a _ => ?_⟩
    rw [Option.some.inj (hnew.symm.trans hport')]
  obtain ⟨s₂, hexec₂⟩ := hsafe s₁ hreach₁ _ hguard₁
  have hstep₂ : ((system idleAndOne resetCpu).ghost (fun _ => contextOf resetCpu)
      (note idleAndOne)).Step (s₁, g₁) (.start ⟨true, true⟩ 0x3000 0x200 port.cpu)
      (s₂, note idleAndOne g₁ s₁ (.start ⟨true, true⟩ 0x3000 0x200 port.cpu)) :=
    Machine.ghost_step.mpr ⟨⟨hguard₁, hexec₂⟩, rfl⟩
  obtain ⟨r, hresumed⟩ := (hrun _ _ _ hghost₁ hstep₂).2.1 _ _ _ _ rfl
  have hreach₂ := hghost₁.step hstep₂
  -- the timer
  have hleave : idleAndOne.guard { s₂.port with cpu := Cause.timer.take s₂.port.cpu }
      (.leave Cause.timer.entry) := by
    refine ⟨⟨r, hresumed.running, ?_⟩, trivial⟩
    have hframe : (contextOf (Cause.timer.take s₂.port.cpu)).frame = s₂.port.cpu.sp - 272 := rfl
    rw [hframe, hresumed.stack]
    exact hresumed.room
  obtain ⟨left, hleft, -⟩ := exists_leave (Coupled.reach hreach₂).port
    (Coupled.reach hreach₂).records hresumed.running hleave
  have hguard₂ : (system idleAndOne resetCpu).guard s₂ (.interrupt .timer left.cpu) := by
    refine ⟨hleave, fun port' hport' a _ => ?_⟩
    rw [Option.some.inj (hleft.symm.trans hport')]
  obtain ⟨s₃, hexec₃⟩ := hsafe s₂ hreach₂.of_ghost _ hguard₂
  have hstep₃ : ((system idleAndOne resetCpu).ghost (fun _ => contextOf resetCpu)
      (note idleAndOne)).Step
      (s₂, note idleAndOne g₁ s₁ (.start ⟨true, true⟩ 0x3000 0x200 port.cpu))
      (.interrupt .timer left.cpu) (s₃, _) :=
    Machine.ghost_step.mpr ⟨⟨hguard₂, hexec₃⟩, rfl⟩
  obtain ⟨_, t, -, -, hnext, hhigh, -⟩ := (hrun _ _ _ hreach₂ hstep₃).2.2 _ _ rfl
  exact ⟨_, _, left.cpu, t, hreach₂, hstep₃, hnext, hhigh rfl⟩

end Preemption
end FlintRTOS
