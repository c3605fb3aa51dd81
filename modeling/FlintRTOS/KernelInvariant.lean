import FlintRTOS.Kernel
import FlintRTOS.QueueEffects
import FlintRTOS.Scheduler

/-!
# What the kernel machine can do

`KernelEffect` lists the ten things an admitted action can do, each with the
scheduler effects it is made of.  `Kernel.Inv` is the invariant the machine runs
under; from it every action either has one of these effects or is a message copy
that leaves the storage of its queue (`CopyFault`).  The properties of queues and
mutexes are derived from `KernelEffect` alone.
-/

namespace FlintRTOS

open ListId ItemId

/-- The queue an action creates, with the messages in it. -/
def Action.newQueue : Action → Option (Queue × List Item)
  | .xQueueCreate (some p) length size =>
      if length = 0 then none else some (Queue.initial p length size, [])
  | .xQueueCreateCounting (some p) max init =>
      if max = 0 then none
      else some ((Queue.initial p max 0).setMessagesWaiting init, List.replicate init [])
  | .xQueueCreateMutex (some p) => some (Queue.newMutex p, [[]])
  | _ => none

variable {a : Action} {R : Kernel → Action → Prop}

theorem newQueue_holder {q : Queue} {contents : List Item} (h : a.newQueue = some (q, contents)) :
    q.pxMutexHolder = none := by
  unfold Action.newQueue at h
  split at h
  · split at h
    · cases h
    · cases h
      rfl
  · split at h
    · cases h
    · cases h
      rfl
  · cases h
    rfl
  · cases h

inductive KernelEffect (k : Kernel) : Action → Kernel → Prop where
  | quiet {a : Action} {σ : Sched} {yielding : TaskId → Bool} (hquiet : Quiet k.sched σ)
      (hinherit : σ.xInheritEnabled = k.sched.xInheritEnabled ∨
        a = .vTaskSetMutexInheritance σ.xInheritEnabled)
      (hyield : a = .resume → ∀ t, k.sched.pxCurrentTCB = some t → k.yielding t = true) :
      KernelEffect k a { k with sched := σ, yielding := yielding }
  | opened {a : Action} {q : Queue} {contents : List Item} {σ : Sched}
      (hnew : a.newQueue = some (q, contents)) (hquiet : Quiet k.sched σ)
      (hinherit : σ.xInheritEnabled = k.sched.xInheritEnabled) :
      KernelEffect k a ((k.setSched σ).addQueue q contents)
  | deleted {x : QueueId} (hunused : k.unused x = true) :
      KernelEffect k (.vQueueDelete x) ((k.setQueue x none).record (.delete x))
  | called {t : TaskId} {c : Call} (hcur : k.sched.pxCurrentTCB = some t)
      (hrun : k.yielding t = false) (hstage : k.stage t = .app)
      (hidle : k.sched.xIdle ≠ some t) (hvalid : k.validCall c = true) :
      KernelEffect k (.call c) ((k.setStage t (.enter c)).record (.call t c))
  | transferred {t : TaskId} {c : Call} {q q₁ : Queue} {item : Item} {y : Bool}
      {σ₁ σ' : Sched} (hcur : k.sched.pxCurrentTCB = some t) (hrun : k.yielding t = false)
      (hstage : k.stage t = .enter c ∨ k.stage t = .wait c)
      (hqueue : k.queue c.xQueue = some q) (hpossible : c.possible q = true)
      (hcopy : c.copy q = some (item, q₁)) (hreleased : Released c q₁ k.sched σ₁)
      (hwake : EventWake c.wakeList σ₁ y σ') :
      KernelEffect k .resume (((((k.setSched σ').setQueue c.xQueue
        (some (c.settled t q₁))).setYielding t y).setStage t (.done c pdPass item)).record
          (.transfer t c item))
  | refused {t : TaskId} {c : Call} {q : Queue} (hcur : k.sched.pxCurrentTCB = some t)
      (hrun : k.yielding t = false)
      (hstage : k.stage t = .enter c ∧ c.xTicksToWait = 0 ∨ k.stage t = .wait c)
      (hqueue : k.queue c.xQueue = some q) (hpossible : c.possible q = false) :
      KernelEffect k .resume (k.setStage t (.done c c.failure []))
  | declined {t : TaskId} {c : Call} {q : Queue} (hcur : k.sched.pxCurrentTCB = some t)
      (hrun : k.yielding t = false) (hstage : k.stage t = .enter c) (hwait : c.xTicksToWait ≠ 0)
      (hqueue : k.queue c.xQueue = some q) (hpossible : c.possible q = false) :
      KernelEffect k .resume (k.setStage t (.block c))
  | enlisted {t : TaskId} {c : Call} {q : Queue} {σ₁ σ' : Sched}
      (hcur : k.sched.pxCurrentTCB = some t) (hrun : k.yielding t = false)
      (hstage : k.stage t = .block c) (hqueue : k.queue c.xQueue = some q) (hboosted : Boosted c q t k.sched σ₁)
      (hblocked : Blocked t (some c.waitList) c.xTicksToWait σ₁ σ') :
      KernelEffect k .resume (((k.setSched σ').setYielding t true).setStage t (.wait c))
  | returned {t : TaskId} {c : Call} {r : BaseType} {item : Item}
      (hcur : k.sched.pxCurrentTCB = some t) (hrun : k.yielding t = false)
      (hstage : k.stage t = .done c r item) :
      KernelEffect k .resume ((k.setStage t .app).record (.ret t c r item))
  | ticked {σ : Sched}
      (hwoke : WokeDue (k.sched.setTickCount (k.sched.xTickCount + 1)) σ) :
      KernelEffect k .tick ((k.setSched (vTaskSwitchContext σ)).record .tick)

/-- The scheduler part of the kernel. -/
@[simps] def Kernel.sys (k : Kernel) : SchedSys := ⟨k.sched, k.yielding⟩

/-- The scheduler invariant; a task whose event item is linked has enlisted and
    not yet looked again; calls in progress are on queues that exist; holders are
    tasks.  The idle task makes no calls. -/
structure Kernel.Inv (k : Kernel) : Prop where
  sys : k.sys.Inv
  waits : ∀ t e, k.sched.eventList t = some e → ∃ c, k.stage t = .wait c ∧ e = c.waitList
  busy : ∀ t c, (k.stage t).call = some c →
    t < k.sched.uxCurrentNumberOfTasks ∧ k.sched.xIdle ≠ some t ∧
      ∃ q, k.queue c.xQueue = some q
  fresh : ∀ x, k.uxQueues ≤ x → k.queue x = none
  holder : ∀ x q h, k.queue x = some q → q.pxMutexHolder = some h →
    h < k.sched.uxCurrentNumberOfTasks

/-- The section of the running task would copy outside the storage, or through a
    NULL buffer. -/
def Kernel.CopyFault (k : Kernel) (a : Action) : Prop :=
  a = .resume ∧ ∃ t c q, k.sched.pxCurrentTCB = some t ∧
    (k.stage t = .enter c ∨ k.stage t = .wait c) ∧ k.queue c.xQueue = some q ∧
    c.possible q = true ∧ c.copy q = none

namespace Kernel

variable {k : Kernel} {t : TaskId} {c : Call}

theorem Inv.sched (h : k.Inv) : k.sched.Inv := h.sys.sched

theorem Inv.ready (h : k.Inv) (hcur : k.sched.pxCurrentTCB = some t) (hrun : k.yielding t = false) :
    k.sched.Ready t :=
  h.sys.running t hcur hrun

theorem Inv.free (h : k.Inv) (hcur : k.sched.pxCurrentTCB = some t) (hrun : k.yielding t = false) :
    k.sched.eventList t = none :=
  (h.sched.tasks t (h.sched.current t hcur)).ready_free (h.ready hcur hrun)

theorem running_of_inApp (h : k.inApp = true) : ∃ t, k.sched.pxCurrentTCB = some t ∧
    k.stage t = .app ∧ k.yielding t = false ∧ k.sched.xIdle ≠ some t := by
  unfold inApp at h
  split at h
  · rename_i t ht
    simp only [Bool.and_eq_true, decide_eq_true_eq, Bool.not_eq_true'] at h
    exact ⟨t, ht, h.1.1.2, h.1.2, h.2⟩
  · cases h

theorem running_of_inKernel (h : k.inKernel = true) : ∃ t, k.sched.pxCurrentTCB = some t ∧
    (k.yielding t = true ∨ k.stage t ≠ .app) := by
  unfold inKernel at h
  split at h
  · rename_i t ht
    simp only [Bool.or_eq_true, decide_eq_true_eq] at h
    exact ⟨t, ht, h⟩
  · cases h

/-- A call in progress is not on a queue that does not exist yet. -/
theorem Inv.xQueue_ne_fresh (h : k.Inv) (hc : (k.stage t).call = some c) :
    c.xQueue ≠ k.uxQueues := by
  obtain ⟨_, _, q, hq⟩ := h.busy t c hc
  intro heq
  rw [heq, h.fresh _ (Nat.le_refl _)] at hq
  cases hq

/-- No task waits on a queue that does not exist yet. -/
theorem Inv.noWaiters (h : k.Inv) : k.sched.NoWaiters k.uxQueues := by
  have hnone : ∀ i, ∀ c : Call, c.xQueue = k.uxQueues →
      (k.sched.lists.item i).pxContainer ≠ some c.waitList := by
    intro i c hc hcontainer
    obtain ⟨t, rfl, _, hwait, _⟩ := h.sched.mem_event c.isEventList_waitList
      ((k.sched.lists.linked _ i).mpr hcontainer)
    obtain ⟨c', hstage, heq⟩ := h.waits t _ hwait
    refine h.xQueue_ne_fresh (t := t) (c := c') (by rw [hstage]; rfl) ?_
    rw [← hc]
    cases c <;> cases c' <;> simp_all [Call.waitList, Call.xQueue]
  intro i
  exact ⟨hnone i (.prvSend k.uxQueues none 0 false) rfl,
    hnone i (.xQueueReceive k.uxQueues false 0) rfl⟩

/-! ### Each action has an effect -/

/-- The running task reaches or executes its `taskYIELD`. -/
theorem sys_setYielding (hcur : k.sched.pxCurrentTCB = some t) (b : Bool) :
    k.sys.setYielding b = Function.update k.yielding t b := by
  simp only [SchedSys.setYielding, sys_sched, hcur]
  rfl

theorem opened_self {q : Queue} {contents : List Item} (hnew : a.newQueue = some (q, contents)) :
    KernelEffect k a (k.addQueue q contents) :=
  .opened hnew (Quiet.of_items rfl rfl rfl rfl rfl) rfl

theorem quiet_self (h : k.sys.Inv) (ha : a ≠ .resume) : KernelEffect k a k ∧ k.sys.Inv :=
  ⟨.quiet (Quiet.of_items rfl rfl rfl rfl rfl) (Or.inl rfl) fun heq => absurd heq ha, h⟩

theorem Inv.yield_effect (h : k.Inv) (hcur : k.sched.pxCurrentTCB = some t)
    (hyield : a = .resume → k.yielding t = true) :
    KernelEffect k a (k.yield t) ∧ (k.yield t).sys.Inv := by
  refine ⟨.quiet (quiet_switch _) (Or.inl rfl) ?_, ?_⟩
  · intro ha u hu
    cases hcur.symm.trans hu
    exact hyield ha
  have hinv := (SchedEffect.yielded (s := k.sys)).inv h.sys
  rw [sys_setYielding hcur] at hinv
  exact hinv

theorem Inv.delay_effect (h : k.Inv) (hcur : k.sched.pxCurrentTCB = some t)
    (hrun : k.yielding t = false) (hidle : k.sched.xIdle ≠ some t) (n : TickType) :
    ∃ k', k.delay t n = some k' ∧ KernelEffect k (.vTaskDelay n) k' ∧ k'.sys.Inv := by
  by_cases hn : n > 0
  · have hready := h.ready hcur hrun
    obtain ⟨σ, hexec, hblocked⟩ := vTaskDelaySection_inv h.sched n hcur hready hidle
    have hfree := (h.sched.tasks t (h.sched.current t hcur)).ready_free hready
    refine ⟨(k.setSched σ).setYielding t true, by simp [delay, hn, hexec], ?_, ?_⟩
    · refine .quiet (hblocked.quiet hfree) (Or.inl ?_) fun ha => by cases ha
      obtain ⟨lists, rfl⟩ := hblocked.frame
      rfl
    · have hinv := SchedSys.Inv.of_blocked (s := k.sys) hcur hblocked
      rw [sys_setYielding hcur] at hinv
      exact hinv
  · exact ⟨k, by simp only [delay, if_neg hn], quiet_self h.sys (by simp)⟩

theorem Inv.tick_effect (h : k.Inv) :
    ∃ k', k.tick = some k' ∧ KernelEffect k .tick k' ∧ k'.sys.Inv := by
  obtain ⟨σ, hexec, hwoke⟩ := xTaskIncrementTick_spec h.sched
  refine ⟨(k.setSched (FlintRTOS.vTaskSwitchContext σ)).record .tick, ?_, .ticked hwoke, ?_⟩
  · simp [tick, hexec]
  · exact SchedEffect.switched.inv ((SchedEffect.ticked (s := k.sys) hwoke).inv h.sys)

theorem Inv.attempt_effect (h : k.Inv) (again : Bool) (hcur : k.sched.pxCurrentTCB = some t)
    (hrun : k.yielding t = false) (hstage : k.stage t = if again then .wait c else .enter c) :
    (∃ k', k.attempt t c again = some k' ∧ KernelEffect k .resume k' ∧ k'.sys.Inv) ∨
      (k.attempt t c again = none ∧ k.CopyFault .resume) := by
  have hcall : (k.stage t).call = some c := by
    rw [hstage]
    cases again <;> rfl
  have hstages : k.stage t = .enter c ∨ k.stage t = .wait c := by
    cases again with
    | false => exact Or.inl hstage
    | true => exact Or.inr hstage
  obtain ⟨_, _, q, hq⟩ := h.busy t c hcall
  cases hpossible : c.possible q with
  | true =>
    cases hcopy : c.copy q with
    | none =>
      refine Or.inr ⟨?_, rfl, t, c, q, hcur, hstages, hq, hpossible, hcopy⟩
      simp [attempt, hq, hpossible, transfer, Call.transfer, hcopy]
    | some r =>
      obtain ⟨item, q₁⟩ := r
      obtain ⟨y, σ₁, σ', htransfer, hreleased, hwake, hinv⟩ :=
        Call.transfer_effect h.sched hcur (h.holder _ q · hq) hcopy
      refine Or.inl ⟨_, ?_, .transferred hcur hrun hstages hq hpossible hcopy hreleased hwake, ?_⟩
      · simp [attempt, hq, hpossible, transfer, htransfer]
      · obtain ⟨top, lists, hframe⟩ := hwake.frame
        refine ⟨hinv, ?_⟩
        -- the caller was ready and stays so
        intro u hu hyield
        have hu' : k.sched.pxCurrentTCB = some u := by
          rw [← hreleased.frame.current]
          simpa [hframe] using hu
        cases hcur.symm.trans hu'
        exact hwake.ready (hreleased.frame.ready t (h.ready hcur hrun))
  | false =>
    by_cases hgive : (again || decide (c.xTicksToWait = 0)) = true
    · refine Or.inl ⟨k.setStage t (.done c c.failure []), ?_, .refused hcur hrun ?_ hq hpossible,
        h.sys⟩
      · simp only [attempt, hq, Option.bind_eq_bind, Option.bind_some, hpossible,
          Bool.false_eq_true, if_false, hgive, if_true]
        rfl
      · cases again with
        | true => exact Or.inr hstage
        | false => exact Or.inl ⟨hstage, by simpa using hgive⟩
    · simp only [Bool.or_eq_true, decide_eq_true_eq, not_or] at hgive
      refine Or.inl ⟨k.setStage t (.block c), ?_, .declined hcur hrun ?_ hgive.2 hq hpossible, h.sys⟩
      · simp [attempt, hq, hpossible, hgive]
      · rw [hstage, if_neg hgive.1]

theorem Inv.enlist_effect (h : k.Inv) (hcur : k.sched.pxCurrentTCB = some t)
    (hrun : k.yielding t = false) (hstage : k.stage t = .block c) :
    ∃ k', k.enlist t c = some k' ∧ KernelEffect k .resume k' ∧ k'.sys.Inv := by
  obtain ⟨_, hidle, q, hq⟩ := h.busy t c (by rw [hstage]; rfl)
  obtain ⟨σ₁, σ', hexec, hboosted, hblocked⟩ := Call.enlist_effect (c := c) h.sched hcur
    (h.ready hcur hrun) hidle (h.holder _ q · hq)
  refine ⟨((k.setSched σ').setYielding t true).setStage t (.wait c), ?_,
    .enlisted hcur hrun hstage hq hboosted hblocked, hblocked.inv, ?_⟩
  · simp [enlist, hq, hexec]
  · intro u hu hyield
    obtain ⟨lists, rfl⟩ := hblocked.frame
    have hu' : k.sched.pxCurrentTCB = some u := hboosted.frame.current ▸ hu
    cases hcur.symm.trans hu'
    simp at hyield

/-- **One action.**  Under the invariant an admitted action has one of the
    effects, or its message copy faults. -/
theorem Inv.effect (h : k.Inv) (hadmits : k.admits a = true) :
    (∃ k', k.exec a = some k' ∧ KernelEffect k a k' ∧ k'.sys.Inv) ∨
      (k.exec a = none ∧ k.CopyFault a) := by
  cases a with
  | xTaskCreate memory p =>
    obtain ⟨r, σ, hexec, hcreated, _⟩ := xTaskCreate_inv h.sched memory p
    have heffect : SchedEffect k.sys (.xTaskCreate memory p) ⟨σ, k.yielding⟩ := .created hcreated
    refine Or.inl ⟨k.setSched σ, by simp [exec, hexec], ?_, heffect.inv h.sys⟩
    exact .quiet (hcreated.quiet h.sched) (Or.inl hcreated.inherit) fun ha => by cases ha
  | vTaskStartScheduler memory =>
    obtain ⟨_, htick⟩ := Bool.and_eq_true_iff.mp hadmits
    obtain ⟨σ, hexec, hcreated⟩ :=
      vTaskStartScheduler_inv h.sched memory (of_decide_eq_true htick)
    have heffect : SchedEffect k.sys (.vTaskStartScheduler memory) ⟨σ, k.yielding⟩ :=
      .started hcreated
    refine Or.inl ⟨k.setSched σ, by simp [exec, hexec], ?_, heffect.inv h.sys⟩
    exact .quiet (hcreated.quiet h.sched) (Or.inl hcreated.inherit) fun ha => by cases ha
  | vTaskSetMutexInheritance b =>
    refine Or.inl ⟨_, rfl, .quiet (Quiet.of_items rfl rfl rfl rfl rfl) (Or.inr rfl)
      (fun ha => by cases ha), ?_⟩
    exact (SchedEffect.inheritance (s := k.sys) b).inv h.sys
  | xQueueCreate pxQueue length size =>
    refine Or.inl ?_
    rcases xQueueCreate_spec h.noWaiters pxQueue length size with
      ⟨_, hexec⟩ | ⟨p, rfl, hlength, hexec⟩
    · exact ⟨k, by simp only [exec, hexec]; rfl, quiet_self h.sys (by simp)⟩
    · refine ⟨_, by simp only [exec, hexec]; rfl, opened_self ?_, h.sys⟩
      simp [Action.newQueue, hlength]
  | xQueueCreateCounting pxQueue max init =>
    refine Or.inl ?_
    rcases xQueueCreate_spec h.noWaiters pxQueue max 0 with
      ⟨_, hexec⟩ | ⟨p, rfl, hlength, hexec⟩
    · exact ⟨k, by simp only [exec, FlintRTOS.xQueueCreateCounting, hexec]; rfl,
        quiet_self h.sys (by simp)⟩
    · refine ⟨_, by simp only [exec, FlintRTOS.xQueueCreateCounting, hexec]; rfl,
        opened_self ?_, h.sys⟩
      simp [Action.newQueue, hlength]
  | xQueueCreateMutex pxQueue =>
    refine Or.inl ?_
    rcases xQueueCreateMutex_spec h.noWaiters pxQueue with
      ⟨_, hexec⟩ | ⟨p, rfl, hexec⟩
    · exact ⟨k, by simp only [exec, hexec]; rfl, quiet_self h.sys (by simp)⟩
    · exact ⟨_, by simp only [exec, hexec]; rfl, opened_self rfl, h.sys⟩
  | vQueueDelete x => exact Or.inl ⟨_, rfl, .deleted hadmits, h.sys⟩
  | call c =>
    obtain ⟨happ, hvalid⟩ := Bool.and_eq_true_iff.mp hadmits
    obtain ⟨t, hcur, hstage, hrun, hidle⟩ := running_of_inApp happ
    exact Or.inl ⟨_, by simp only [exec, hcur]; rfl, .called hcur hrun hstage hidle hvalid, h.sys⟩
  | vTaskDelay n =>
    obtain ⟨t, hcur, _, hrun, hidle⟩ := running_of_inApp hadmits
    obtain ⟨k', hexec, heffect, hinv⟩ := h.delay_effect hcur hrun hidle n
    exact Or.inl ⟨k', by simp [exec, hcur, hexec], heffect, hinv⟩
  | taskYIELD =>
    obtain ⟨t, hcur, _⟩ := running_of_inApp hadmits
    exact Or.inl ⟨_, by simp only [exec, hcur]; rfl, h.yield_effect hcur fun ha => by cases ha⟩
  | resume =>
    obtain ⟨t, hcur, hin⟩ := running_of_inKernel hadmits
    have hexec : k.exec .resume = k.resume t := by simp [exec, hcur]
    rw [hexec, resume]
    cases hrun : k.yielding t with
    | true => exact Or.inl ⟨_, rfl, h.yield_effect hcur fun _ => hrun⟩
    | false =>
      cases hstage : k.stage t with
      | app => simp [hrun, hstage] at hin
      | enter c => exact h.attempt_effect false hcur hrun hstage
      | block c => exact Or.inl (h.enlist_effect hcur hrun hstage)
      | wait c => exact h.attempt_effect true hcur hrun hstage
      | done c r item => exact Or.inl ⟨_, rfl, .returned hcur hrun hstage, h.sys⟩
  | tick => exact Or.inl h.tick_effect

end Kernel

/-! ### Every action keeps the invariant -/

namespace Kernel

variable {k : Kernel} {c : Call} {x : QueueId} {t : TaskId} {q q' : Queue}

theorem validCall_queue (h : k.validCall c = true) : ∃ q, k.queue c.xQueue = some q := by
  unfold validCall at h
  split at h
  · exact ⟨_, by assumption⟩
  · exact ⟨_, by assumption⟩
  · cases h

theorem unused_call (h : k.unused x = true) (ht : t < k.sched.uxCurrentNumberOfTasks)
    (hc : (k.stage t).call = some c) : c.xQueue ≠ x := by
  unfold unused at h
  split at h
  · obtain ⟨_, hall⟩ := Bool.and_eq_true_iff.mp h
    have := List.all_eq_true.mp hall t (List.mem_range.mpr ht)
    simpa [hc] using this
  · cases h

theorem unused_holder (h : k.unused x = true) (hq : k.queue x = some q) :
    q.pxMutexHolder = none := by
  simp only [unused, hq, Bool.and_eq_true, decide_eq_true_eq] at h
  exact h.1

variable {stages : TaskId → Stage} {u : TaskId} {queues : QueueId → Option Queue} {y : QueueId}
  {q₁ : Queue} {item : Item} {σ σ₁ σ' : Sched}

/-- A call in progress after a stage change was in progress before, if the new
    stage is of the same call or of none. -/
theorem call_of_update {stage : Stage} (hsame : ∀ c, stage.call = some c → (stages t).call = some c)
    (hc : (Function.update stages t stage u).call = some c) : (stages u).call = some c := by
  by_cases hu : u = t
  · subst hu
    rw [Function.update_self] at hc
    exact hsame c hc
  · rwa [Function.update_of_ne hu] at hc

/-- The stage of a task after one task has come to another stage. -/
theorem stage_of_update {stage stage' : Stage} (h : Function.update stages t stage u = stage') :
    u = t ∧ stage = stage' ∨ u ≠ t ∧ stages u = stage' := by
  by_cases hu : u = t
  · subst hu
    rw [Function.update_self] at h
    exact Or.inl ⟨rfl, h⟩
  · rw [Function.update_of_ne hu] at h
    exact Or.inr ⟨hu, h⟩

/-- The record of a queue after one record was written. -/
theorem queue_of_update (h : Function.update queues y (some q') x = some q) :
    x = y ∧ q = q' ∨ x ≠ y ∧ queues x = some q := by
  by_cases hx : x = y
  · subst hx
    rw [Function.update_self] at h
    exact Or.inl ⟨rfl, (Option.some.inj h).symm⟩
  · rw [Function.update_of_ne hx] at h
    exact Or.inr ⟨hx, h⟩

theorem queue_of_delete (h : Function.update queues y none x = some q) :
    x ≠ y ∧ queues x = some q := by
  have hx : x ≠ y := by
    rintro rfl
    rw [Function.update_self] at h
    cases h
  rw [Function.update_of_ne hx] at h
  exact ⟨hx, h⟩

/-- After a transfer every queue is one that was there, and of the same kind. -/
theorem queue_of_transfer (hqueue : k.queue c.xQueue = some q) (hcopy : c.copy q = some (item, q₁))
    (h : Function.update k.queue c.xQueue (some (c.settled t q₁)) x = some q') :
    ∃ q₀, k.queue x = some q₀ ∧ q₀.ucIsMutex = q'.ucIsMutex := by
  rcases queue_of_update h with ⟨rfl, rfl⟩ | ⟨_, hq'⟩
  · refine ⟨q, hqueue, ?_⟩
    rw [Call.settled_ucIsMutex, (Call.copy_fields hcopy).2.2.1]
  · exact ⟨q', hq', rfl⟩

theorem call_of_look {stage : Stage} (h : stage = .enter c ∨ stage = .wait c) :
    stage.call = some c := by
  rcases h with rfl | rfl
  · rfl
  · rfl

/-- Updating the stage of a task that waits on no event. -/
theorem Inv.restage (h : k.Inv) {stage : Stage} (hfree : k.sched.eventList t = none)
    (hcall : ∀ c, stage.call = some c → t < k.sched.uxCurrentNumberOfTasks ∧
      k.sched.xIdle ≠ some t ∧ ∃ q, k.queue c.xQueue = some q) : (k.setStage t stage).Inv := by
  refine ⟨h.sys, ?_, ?_, h.fresh, h.holder⟩
  · intro u e he
    have hne : u ≠ t := by
      rintro rfl
      rw [setStage_sched, hfree] at he
      cases he
    simpa [hne] using h.waits u e he
  · intro u c hc
    by_cases hu : u = t
    · subst hu
      exact hcall c (by simpa using hc)
    · exact h.busy u c (by simpa [hu] using hc)

theorem Inv.record (h : k.Inv) (e : Event) : (k.record e).Inv :=
  ⟨h.sys, h.waits, h.busy, h.fresh, h.holder⟩

/-- A record that was there is replaced by one whose holder is a task. -/
theorem Inv.setQueue (h : k.Inv) (hq : k.queue x = some q)
    (hholder : ∀ u, q'.pxMutexHolder = some u → u < k.sched.uxCurrentNumberOfTasks) :
    (k.setQueue x (some q')).Inv := by
  refine ⟨h.sys, h.waits, ?_, ?_, ?_⟩
  · intro t c hc
    obtain ⟨hlt, hidle, q₁, hq₁⟩ := h.busy t c hc
    refine ⟨hlt, hidle, ?_⟩
    by_cases hx : c.xQueue = x
    · exact ⟨q', by simp [hx]⟩
    · exact ⟨q₁, by simpa [hx] using hq₁⟩
  · intro y hy
    have hne : y ≠ x := by
      rintro rfl
      rw [h.fresh y hy] at hq
      cases hq
    simpa [hne] using h.fresh y hy
  · intro y q₁ u hq₁ hu
    rcases queue_of_update hq₁ with ⟨_, rfl⟩ | ⟨_, hq₁⟩
    · exact hholder u hu
    · exact h.holder y q₁ u hq₁ hu

/-- The scheduler state changes, with the same tasks, and every event item that
    is linked afterwards was so before. -/
theorem Inv.setSched (h : k.Inv) {yielding : TaskId → Bool} (hsys : SchedSys.Inv ⟨σ, yielding⟩)
    (hevent : ∀ t e, σ.eventList t = some e → k.sched.eventList t = some e)
    (hnumber : σ.uxCurrentNumberOfTasks = k.sched.uxCurrentNumberOfTasks)
    (hidle : σ.xIdle = k.sched.xIdle) :
    ({ k with sched := σ, yielding := yielding } : Kernel).Inv := by
  refine ⟨hsys, fun t e he => h.waits t e (hevent t e he), ?_, h.fresh, ?_⟩
  · intro t c hc
    rw [hnumber, hidle]
    exact h.busy t c hc
  · intro x q u hq hu
    rw [hnumber]
    exact h.holder x q u hq hu

theorem Inv.addQueue (h : k.Inv) {a : Action} {contents : List Item}
    (hnew : a.newQueue = some (q, contents)) : (k.addQueue q contents).Inv := by
  refine ⟨h.sys, h.waits, ?_, ?_, ?_⟩
  · intro t c hc
    obtain ⟨hlt, hidle, q₁, hq₁⟩ := h.busy t c hc
    exact ⟨hlt, hidle, q₁, by simpa [h.xQueue_ne_fresh hc] using hq₁⟩
  · intro x hx
    have hne : x ≠ k.uxQueues := by
      rintro rfl
      exact Nat.not_succ_le_self _ hx
    simpa [hne] using h.fresh x (Nat.le_of_succ_le hx)
  · intro x q₁ u hq₁ hu
    rcases queue_of_update hq₁ with ⟨_, rfl⟩ | ⟨_, hq₁⟩
    · rw [newQueue_holder hnew] at hu
      cases hu
    · exact h.holder x q₁ u hq₁ hu

theorem Inv.deleteQueue (h : k.Inv) (hunused : k.unused x = true) : (k.setQueue x none).Inv := by
  refine ⟨h.sys, h.waits, ?_, ?_, ?_⟩
  · intro t c hc
    obtain ⟨hlt, hidle, q, hq⟩ := h.busy t c hc
    have hne := unused_call hunused hlt hc
    exact ⟨hlt, hidle, q, by simpa [hne] using hq⟩
  · intro y hy
    by_cases hyx : y = x
    · simp [hyx]
    · simpa [hyx] using h.fresh y hy
  · intro y q u hq hu
    exact h.holder y q u (queue_of_delete hq).2 hu

theorem Inv.of_quiet (h : k.Inv) {yielding : TaskId → Bool} (hquiet : Quiet k.sched σ)
    (hsys : SchedSys.Inv ⟨σ, yielding⟩) :
    ({ k with sched := σ, yielding := yielding } : Kernel).Inv := by
  refine ⟨hsys, ?_, ?_, h.fresh, ?_⟩
  · intro t e he
    exact h.waits t e (hquiet.event t ▸ he)
  · intro t c hc
    obtain ⟨hlt, hidle, hq⟩ := h.busy t c hc
    exact ⟨Nat.lt_of_lt_of_le hlt hquiet.number, hquiet.idle t hlt hidle, hq⟩
  · intro x q u hq hu
    exact Nat.lt_of_lt_of_le (h.holder x q u hq hu) hquiet.number

/-- The caller of a successful section waits for nothing, and the record it
    leaves names no other holder than the caller. -/
theorem Inv.of_transfer (h : k.Inv) {y : Bool} (hcur : k.sched.pxCurrentTCB = some t)
    (hrun : k.yielding t = false) (hcall : (k.stage t).call = some c)
    (hqueue : k.queue c.xQueue = some q) (hcopy : c.copy q = some (item, q₁))
    (hreleased : Released c q₁ k.sched σ₁) (hwake : EventWake c.wakeList σ₁ y σ')
    (hsys : SchedSys.Inv ⟨σ', Function.update k.yielding t y⟩) :
    ((((k.setSched σ').setQueue c.xQueue (some (c.settled t q₁))).setYielding t y).setStage t
      (.done c pdPass item)).Inv := by
  obtain ⟨top, lists, hframe⟩ := hwake.frame
  have hlinked : ∀ u e, σ'.eventList u = some e → k.sched.eventList u = some e := by
    intro u e he
    rw [← hreleased.frame.event u]
    exact hwake.eventList_of_some he
  have hfree : σ'.eventList t = none := by
    cases he : σ'.eventList t with
    | none => rfl
    | some e => cases (hlinked t e he).symm.trans (h.free hcur hrun)
  have h₁ : ({ k with sched := σ', yielding := Function.update k.yielding t y } : Kernel).Inv :=
    h.setSched hsys hlinked (by rw [hframe]; exact hreleased.frame.number)
      (by rw [hframe]; exact hreleased.frame.idle)
  have hlt₁ : t < σ'.uxCurrentNumberOfTasks := (h₁.busy t c hcall).1
  refine (h₁.setQueue hqueue ?_).restage hfree ?_
  · intro u hu
    cases hmutex : q₁.ucIsMutex with
    | false =>
      rw [Call.settled, hmutex, if_neg (by simp), (Call.copy_fields hcopy).2.2.2.1] at hu
      exact h₁.holder _ q u hqueue hu
    | true =>
      rw [Call.settled_pxMutexHolder _ _ _ hmutex] at hu
      split at hu
      · cases hu
      · cases hu
        exact hlt₁
  · intro c' hc'
    cases hc'
    refine ⟨hlt₁, (h₁.busy t c hcall).2.1, c.settled t q₁, ?_⟩
    simp

/-- The caller of an enlisting section is on the list of its call. -/
theorem Inv.of_enlist (h : k.Inv) (hstage : k.stage t = .block c)
    (hboosted : Boosted c q t k.sched σ₁)
    (hblocked : Blocked t (some c.waitList) c.xTicksToWait σ₁ σ')
    (hsys : SchedSys.Inv ⟨σ', Function.update k.yielding t true⟩) :
    (((k.setSched σ').setYielding t true).setStage t (.wait c)).Inv := by
  have hevent : ∀ u, u ≠ t → σ'.eventList u = k.sched.eventList u := by
    intro u hu
    rw [← hboosted.frame.event u]
    simp only [Sched.eventList, (hblocked.other u hu).2]
  have hsame : σ'.uxCurrentNumberOfTasks = k.sched.uxCurrentNumberOfTasks ∧
      σ'.xIdle = k.sched.xIdle := by
    obtain ⟨lists, rfl⟩ := hblocked.frame
    exact ⟨hboosted.frame.number, hboosted.frame.idle⟩
  refine ⟨hsys, ?_, ?_, h.fresh, ?_⟩
  · intro u e he
    by_cases hu : u = t
    · subst hu
      cases hblocked.event.symm.trans he
      exact ⟨c, by simp, rfl⟩
    · simpa [hu] using h.waits u e ((hevent u hu) ▸ he)
  · intro u c' hc'
    have hbusy : (k.stage u).call = some c' :=
      call_of_update (fun c₁ hc₁ => by rw [hstage]; exact hc₁) hc'
    simpa [hsame.1, hsame.2] using h.busy u c' hbusy
  · intro x q' u hq' hu
    have := h.holder x q' u hq' hu
    simpa [hsame.1] using this

end Kernel

variable {k' : Kernel}

theorem KernelEffect.inv {k : Kernel} (heffect : KernelEffect k a k') (hsys : k'.sys.Inv)
    (h : k.Inv) : k'.Inv := by
  cases heffect with
  | quiet hquiet => exact h.of_quiet hquiet hsys
  | @opened _ q contents σ hnew hquiet =>
    exact (h.of_quiet hquiet hsys).addQueue hnew
  | deleted hunused => exact (h.deleteQueue hunused).record _
  | called hcur hrun hstage hidle hvalid =>
    refine (h.restage (h.free hcur hrun) ?_).record _
    intro c hc
    cases hc
    exact ⟨h.sched.current _ hcur, hidle, Kernel.validCall_queue hvalid⟩
  | transferred hcur hrun hstage hqueue _ hcopy hreleased hwake =>
    exact (h.of_transfer hcur hrun (Kernel.call_of_look hstage) hqueue hcopy hreleased hwake
      hsys).record _
  | refused hcur hrun hstage =>
    refine h.restage (h.free hcur hrun) ?_
    intro c hc
    cases hc
    exact h.busy _ _ (Kernel.call_of_look (hstage.imp_left And.left))
  | declined hcur hrun hstage =>
    refine h.restage (h.free hcur hrun) ?_
    intro c hc
    cases hc
    exact h.busy _ _ (by rw [hstage]; rfl)
  | enlisted _ _ hstage _ hboosted hblocked =>
    exact h.of_enlist hstage hboosted hblocked hsys
  | returned hcur hrun =>
    refine (h.restage (h.free hcur hrun) ?_).record _
    intro c hc
    cases hc
  | @ticked σ hwoke =>
    have hinv : ({ k with sched := vTaskSwitchContext σ, yielding := k.yielding } : Kernel).Inv := by
      refine h.setSched hsys ?_ ?_ ?_
      · intro t e he
        have hσ : σ.eventList t = some e := (quiet_switch σ).event t ▸ he
        exact (hwoke.eventList_of_some hσ).1
      · obtain ⟨top, lists, rfl⟩ := hwoke.frame
        rfl
      · obtain ⟨top, lists, rfl⟩ := hwoke.frame
        rfl
    exact hinv.record _

/-! ### Runs -/

theorem Kernel.boot_inv : Kernel.boot.Inv := by
  refine ⟨⟨Sched.boot_inv, ?_⟩, ?_, ?_, fun _ _ => rfl, ?_⟩
  · intro t ht
    cases ht
  · intro t e he
    cases he
  · intro t c hc
    cases hc
  · intro x q u hq
    cases hq

theorem kernel_inv {k : Kernel} (h : kernel.Reach k) : k.Inv := by
  refine h.invariant (P := Kernel.Inv) Kernel.boot_inv ?_
  rintro k a k' _ hinv ⟨hadmits, hexec⟩
  rcases hinv.effect hadmits with ⟨k'', hexec', heffect, hsys⟩ | ⟨hnone, _⟩
  · cases hexec.symm.trans hexec'
    exact heffect.inv hsys hinv
  · cases hexec.symm.trans hnone

/-- What a step from a reachable state does. -/
theorem kernel_effect {k : Kernel} (h : kernel.Reach k) (hstep : kernel.Step k a k') :
    KernelEffect k a k' := by
  obtain ⟨hadmits, hexec⟩ := hstep
  rcases (kernel_inv h).effect hadmits with ⟨k'', hexec', heffect, _⟩ | ⟨hnone, _⟩
  · cases hexec.symm.trans hexec'
    exact heffect
  · cases hexec.symm.trans hnone

/-- The invariant rule for the kernel, with the effects as the cases. -/
theorem kernel_invariant {P : Kernel → Prop} (hinit : P Kernel.boot)
    (hstep : ∀ k a k', (kernel.restrict R).Reach k → P k → R k a → KernelEffect k a k' → P k')
    {k : Kernel} (h : (kernel.restrict R).Reach k) : P k := by
  refine h.invariant (P := P) hinit ?_
  intro k a k' hreach hk hst
  obtain ⟨hst, hr⟩ := Machine.restrict_step.mp hst
  exact hstep k a k' hreach hk hr (kernel_effect hreach.of_restrict hst)

/-- The invariant rule for one queue at a time: what holds of a new queue, is kept
    by the transfers on it, and does not depend on events that concern other
    queues. -/
theorem queue_invariant {P : QueueId → Queue → List Event → Prop}
    (hnew : ∀ k a q contents, R k a → a.newQueue = some (q, contents) →
      P k.uxQueues q (.create k.uxQueues contents :: k.log))
    (htransfer : ∀ k t c q q₁ item, (kernel.restrict R).Reach k →
      (k.stage t = .enter c ∨ k.stage t = .wait c) → k.queue c.xQueue = some q → c.possible q = true → c.copy q = some (item, q₁) →
      P c.xQueue q k.log → P c.xQueue (c.settled t q₁) (.transfer t c item :: k.log))
    (hframe : ∀ x q e log, e.queue ≠ some x → P x q log → P x q (e :: log)) {k : Kernel}
    (h : (kernel.restrict R).Reach k) : ∀ x q, k.queue x = some q → P x q k.log := by
  refine kernel_invariant (P := fun k => ∀ x q, k.queue x = some q → P x q k.log) ?_ ?_ h
  · intro x q hq
    cases hq
  intro k a k' hreach ih hr heffect
  cases heffect with
  | quiet | refused | declined | enlisted => exact ih
  | called | returned | ticked =>
    intro x q hq
    exact hframe _ _ _ _ (by simp [Event.queue]) (ih x q hq)
  | opened hopen =>
    intro x q' hq'
    rcases Kernel.queue_of_update hq' with ⟨rfl, rfl⟩ | ⟨hx, hq'⟩
    · exact hnew k a q' _ hr hopen
    · refine hframe _ _ _ _ ?_ (ih x q' hq')
      simpa [Event.queue] using Ne.symm hx
  | deleted =>
    intro x q hq
    obtain ⟨hx, hq⟩ := Kernel.queue_of_delete hq
    refine hframe _ _ _ _ ?_ (ih x q hq)
    simpa [Event.queue] using Ne.symm hx
  | @transferred t c q q₁ item y σ₁ σ' _ _ hstage hqueue hpossible hcopy =>
    intro x q' hq'
    rcases Kernel.queue_of_update hq' with ⟨rfl, rfl⟩ | ⟨hx, hq'⟩
    · exact htransfer k t c q q₁ item hreach hstage hqueue hpossible hcopy (ih _ q hqueue)
    · refine hframe _ _ _ _ ?_ (ih x q' hq')
      simpa [Event.queue] using Ne.symm hx

/-- The invariant rule for the calls in progress: what holds of a call and its
    queue when the call is made, and is kept by the transfers on the queue. -/
theorem call_invariant {U : Call → Queue → Prop}
    (hcall : ∀ k c q, R k (.call c) → k.validCall c = true → k.queue c.xQueue = some q → U c q)
    (htransfer : ∀ (c c' : Call) t q q₁ item, c'.possible q = true → c'.copy q = some (item, q₁) →
      U c q → U c (c'.settled t q₁)) {k : Kernel} (h : (kernel.restrict R).Reach k) :
    ∀ t c q, (k.stage t).call = some c → k.queue c.xQueue = some q → U c q := by
  refine kernel_invariant (P := fun k => ∀ t c q, (k.stage t).call = some c →
    k.queue c.xQueue = some q → U c q) ?_ ?_ h
  · intro t c q hc
    cases hc
  intro k a k' hreach ih hr heffect
  have hinv := kernel_inv hreach.of_restrict
  cases heffect with
  | quiet | ticked => exact ih
  | opened =>
    intro t c q' hc hq'
    rcases Kernel.queue_of_update hq' with ⟨hx, _⟩ | ⟨_, hq'⟩
    · exact absurd hx (hinv.xQueue_ne_fresh hc)
    · exact ih t c q' hc hq'
  | deleted =>
    intro t c q hc hq
    exact ih t c q hc (Kernel.queue_of_delete hq).2
  | @called t c _ _ _ _ hvalid =>
    intro u c' q hc hq
    by_cases hu : u = t
    · subst hu
      have heq : c' = c := by simpa [Stage.call] using hc.symm
      subst heq
      exact hcall k c' q hr hvalid hq
    · exact ih u c' q (by simpa [hu] using hc) hq
  | @transferred t c q q₁ item y σ₁ σ' _ _ hstage hqueue hpossible hcopy =>
    intro u c' q' hc' hq'
    have hlook := Kernel.call_of_look hstage
    have hc' : (k.stage u).call = some c' :=
      Kernel.call_of_update (fun c₁ hc₁ => by rw [hlook]; exact hc₁) hc'
    rcases Kernel.queue_of_update hq' with ⟨hx, rfl⟩ | ⟨_, hq'⟩
    · exact htransfer c' c t q q₁ item hpossible hcopy (ih u c' q hc' (hx ▸ hqueue))
    · exact ih u c' q' hc' hq'
  | refused _ _ hstage =>
    have hlook := Kernel.call_of_look (hstage.imp_left And.left)
    refine fun u c' q' hc' => ih u c' q' (Kernel.call_of_update ?_ hc')
    intro c₁ hc₁
    rw [hlook]
    exact hc₁
  | declined _ _ hstage | enlisted _ _ hstage =>
    refine fun u c' q' hc' => ih u c' q' (Kernel.call_of_update ?_ hc')
    intro c₁ hc₁
    rw [hstage]
    exact hc₁
  | returned =>
    refine fun u c' q' hc' => ih u c' q' (Kernel.call_of_update ?_ hc')
    intro c₁ hc₁
    cases hc₁

end FlintRTOS
