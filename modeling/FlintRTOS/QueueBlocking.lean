import FlintRTOS.KernelInvariant

/-!
# Does a task block only when it has to?

A caller that finds the queue full or empty leaves its critical section, and
enlists on the queue in a second one.  Between the two it is at stage `block`,
and what it saw may no longer be true when it enlists: then it goes to sleep on a
condition that already holds, and the transfer that made it hold woke nobody.

`NoWindow` excludes that: no transfer on a queue while a task is in the window
between its look and its enlisting on that queue.  Along the runs that meet it a
task enlists only on an empty, or full, queue.
-/

namespace FlintRTOS

open ListId ItemId

/-! ### Stages of a call -/

/-- The call whose next section looks at the queue. -/
def Stage.look : Stage → Option Call
  | .enter c | .wait c => some c
  | .app | .block _ | .done .. => none

/-- The call that has looked at the queue and is about to enlist. -/
def Stage.blocking : Stage → Option Call
  | .block c => some c
  | .app | .enter _ | .wait _ | .done .. => none

variable {c : Call} {k k' : Kernel} {t : TaskId} {q : Queue} {a : Action}

theorem Stage.look_eq_some {stage : Stage} :
    stage.look = some c ↔ stage = .enter c ∨ stage = .wait c := by
  cases stage <;> simp [look]

theorem Stage.blocking_eq_some {stage : Stage} : stage.blocking = some c ↔ stage = .block c := by
  cases stage <;> simp [blocking]

/-- The transfer that the running task makes next: the task, its call, and the
    record of the queue. -/
def Kernel.transferring (k : Kernel) : Action → Option (TaskId × Call × Queue)
  | .resume =>
      k.sched.pxCurrentTCB.bind fun t =>
        (if k.yielding t then none else (k.stage t).look).bind fun c =>
          (k.queue c.xQueue).bind fun q => if c.possible q then some (t, c, q) else none
  | _ => none

theorem Kernel.transferring_eq (hcur : k.sched.pxCurrentTCB = some t) (hrun : k.yielding t = false)
    (hstage : k.stage t = .enter c ∨ k.stage t = .wait c) (hqueue : k.queue c.xQueue = some q)
    (hpossible : c.possible q = true) : k.transferring .resume = some (t, c, q) := by
  simp [transferring, hcur, hrun, Stage.look_eq_some.mpr hstage, hqueue, hpossible]

theorem Kernel.transferring_inv (h : k.transferring a = some (t, c, q)) :
    a = .resume ∧ k.sched.pxCurrentTCB = some t ∧ k.yielding t = false ∧
      (k.stage t = .enter c ∨ k.stage t = .wait c) ∧ k.queue c.xQueue = some q ∧
      c.possible q = true := by
  cases a with
  | resume =>
    simp only [transferring, Option.bind_eq_some_iff] at h
    obtain ⟨t', hcur, c', hlook, q', hqueue, h⟩ := h
    obtain ⟨hpossible, heq⟩ := Option.ite_none_right_eq_some.mp h
    obtain ⟨hrun, hlook⟩ := Option.ite_none_left_eq_some.mp hlook
    cases heq
    exact ⟨rfl, hcur, by simpa using hrun, Stage.look_eq_some.mp hlook, hqueue, hpossible⟩
  | xTaskCreate | vTaskStartScheduler | vTaskSetMutexInheritance | xQueueCreate
  | xQueueCreateCounting | xQueueCreateMutex | vQueueDelete | call | vTaskDelay | taskYIELD
  | tick => cases h

theorem KernelEffect.of_transferring (h : KernelEffect k a k')
    (htransfer : k.transferring a = some (t, c, q)) :
    ∃ item q₁ y σ₁ σ', c.copy q = some (item, q₁) ∧ Released c q₁ k.sched σ₁ ∧
      EventWake c.wakeList σ₁ y σ' ∧ k' = ((((k.setSched σ').setQueue c.xQueue
        (some (c.settled t q₁))).setYielding t y).setStage t (.done c pdPass item)).record
          (.transfer t c item) := by
  obtain ⟨rfl, hcur, hrun, hstage, hqueue, hpossible⟩ := Kernel.transferring_inv htransfer
  have hlook := Stage.look_eq_some.mpr hstage
  cases h with
  | quiet _ _ hyield =>
    rw [hyield rfl t hcur] at hrun
    cases hrun
  | opened hnew => cases hnew
  | transferred hcur' _ hstage' hqueue' _ hcopy hreleased hwake =>
    cases hcur.symm.trans hcur'
    cases hlook.symm.trans (Stage.look_eq_some.mpr hstage')
    cases hqueue.symm.trans hqueue'
    exact ⟨_, _, _, _, _, hcopy, hreleased, hwake, rfl⟩
  | refused hcur' _ hstage' hqueue' hnot =>
    cases hcur.symm.trans hcur'
    cases hlook.symm.trans (Stage.look_eq_some.mpr (hstage'.imp_left And.left))
    cases hqueue.symm.trans hqueue'
    rw [hpossible] at hnot
    cases hnot
  | declined hcur' _ hstage' _ hqueue' hnot =>
    cases hcur.symm.trans hcur'
    cases hlook.symm.trans (Stage.look_eq_some.mpr (Or.inl hstage'))
    cases hqueue.symm.trans hqueue'
    rw [hpossible] at hnot
    cases hnot
  | enlisted hcur' _ hstage' =>
    cases hcur.symm.trans hcur'
    rw [hstage'] at hlook
    cases hlook
  | returned hcur' _ hstage' =>
    cases hcur.symm.trans hcur'
    rw [hstage'] at hlook
    cases hlook

/-! ### The count of a queue that is waited for -/

theorem ticksToWait_ne_zero (h : kernel.Reach k)
    (hstage : k.stage t = .block c ∨ k.stage t = .wait c) : c.xTicksToWait ≠ 0 := by
  refine kernel_invariant (P := fun k => ∀ t c, k.stage t = .block c ∨ k.stage t = .wait c →
    c.xTicksToWait ≠ 0) ?_ ?_ h.restrict_true t c hstage
  · rintro t c (hstage | hstage)
    · cases hstage
    · cases hstage
  intro k a k' _ ih _ heffect
  -- the new stage of `t` is another, or of a call that may wait
  have hupdate : ∀ {t : TaskId} {stage : Stage},
      (∀ c, stage = .block c ∨ stage = .wait c → c.xTicksToWait ≠ 0) → ∀ u c,
        Function.update k.stage t stage u = .block c ∨
          Function.update k.stage t stage u = .wait c → c.xTicksToWait ≠ 0 := by
    intro t stage hnew u c hstage
    by_cases hu : u = t
    · rw [hu, Function.update_self] at hstage
      exact hnew c hstage
    · rw [Function.update_of_ne hu] at hstage
      exact ih u c hstage
  cases heffect with
  | quiet | opened | deleted | ticked => exact ih
  | called | transferred | refused | returned => exact hupdate (by simp)
  | declined _ _ _ hwait =>
    refine hupdate ?_
    rintro c (hc | hc)
    · cases hc
      exact hwait
    · cases hc
  | enlisted _ _ hstage =>
    refine hupdate ?_
    rintro c (hc | hc)
    · cases hc
    · cases hc
      exact ih _ _ (Or.inl hstage)

/-- A send that may wait is called on a queue whose count is within its length.
    `xQueueCreateCounting` does not check its initial count. -/
def WithinLength (k : Kernel) : Action → Prop
  | .call c => c.isSend = true → c.xTicksToWait ≠ 0 → ∀ q ∈ k.queue c.xQueue,
      q.uxMessagesWaiting ≤ q.uxLength
  | _ => True

instance (k : Kernel) : ∀ a, Decidable (WithinLength k a)
  | .call c => inferInstanceAs (Decidable (c.isSend = true → _))
  | .xTaskCreate .. | .vTaskStartScheduler _ | .vTaskSetMutexInheritance _ | .xQueueCreate ..
  | .xQueueCreateCounting .. | .xQueueCreateMutex _ | .vQueueDelete _ | .vTaskDelay _
  | .taskYIELD | .resume | .tick => inferInstanceAs (Decidable True)

theorem Call.count_le {q₁ : Queue} {item : Item} (hpossible : c.possible q = true)
    (hcopy : c.copy q = some (item, q₁)) (h : q.uxMessagesWaiting ≤ q.uxLength) :
    (c.settled t q₁).uxMessagesWaiting ≤ (c.settled t q₁).uxLength := by
  obtain ⟨hlength, _, _, _, hcount⟩ := copy_fields hcopy
  rw [settled_uxMessagesWaiting, settled_uxLength, hlength, hcount]
  cases c with
  | prvSend =>
    have hlt : q.uxMessagesWaiting < q.uxLength := by simpa [possible] using hpossible
    exact hlt
  | xQueueReceive => exact Nat.le_trans (Nat.sub_le _ _) h

theorem count_le_of_waiting {R : Kernel → Action → Prop} (hR : ∀ k a, R k a → WithinLength k a)
    (h : (kernel.restrict R).Reach k) (hstage : k.stage t = .block c ∨ k.stage t = .wait c)
    (hsend : c.isSend = true) (hq : k.queue c.xQueue = some q) :
    q.uxMessagesWaiting ≤ q.uxLength := by
  have hcall : (k.stage t).call = some c := by
    rcases hstage with hstage | hstage
    · rw [hstage]
      rfl
    · rw [hstage]
      rfl
  refine call_invariant (U := fun c q => c.isSend = true → c.xTicksToWait ≠ 0 →
    q.uxMessagesWaiting ≤ q.uxLength) ?_ ?_ h t c q hcall hq hsend
    (ticksToWait_ne_zero h.of_restrict hstage)
  · intro k c q hr _ hq hsend hwait
    exact hR k (.call c) hr hsend hwait q hq
  · intro c c' t q q₁ item hpossible hcopy ih hsend hwait
    exact Call.count_le hpossible hcopy (ih hsend hwait)

/-! ### The window -/

/-- No task is about to enlist on the queue of the next transfer. -/
def NoWindow (k : Kernel) (a : Action) : Prop :=
  (∀ r ∈ k.transferring a, ∀ u < k.sched.uxCurrentNumberOfTasks,
    ∀ c ∈ (k.stage u).blocking, c.xQueue ≠ r.2.1.xQueue) ∧ WithinLength k a

instance (k : Kernel) (a : Action) : Decidable (NoWindow k a) :=
  inferInstanceAs (Decidable (_ ∧ _))

/-- What a task saw still holds when it enlists. -/
def Looked (k : Kernel) : Prop :=
  ∀ t c q, k.stage t = .block c → k.queue c.xQueue = some q → c.possible q = false

theorem NoWindow.queue_ne (hinv : k.Inv) (h : NoWindow k .resume)
    (htransfer : k.transferring .resume = some (t, c, q)) {u : TaskId} {c' : Call}
    (hstage : k.stage u = .block c') : c'.xQueue ≠ c.xQueue :=
  h.1 (t, c, q) htransfer u (hinv.busy u c' (by rw [hstage]; rfl)).1 c'
    (Stage.blocking_eq_some.mpr hstage)

theorem looked_step (hinv : k.Inv) (h : Looked k) (hwindow : NoWindow k a)
    (heffect : KernelEffect k a k') : Looked k' := by
  cases heffect with
  | quiet | ticked => exact h
  | called | refused | enlisted | returned =>
    -- the running task comes to another stage than `block`
    intro u c q hstage hq
    rcases Kernel.stage_of_update hstage with ⟨_, heq⟩ | ⟨_, hstage⟩
    · cases heq
    · exact h u c q hstage hq
  | opened =>
    intro u c q hstage hq
    have hstage : k.stage u = .block c := hstage
    rcases Kernel.queue_of_update hq with ⟨hx, _⟩ | ⟨_, hq⟩
    · exact absurd hx (hinv.xQueue_ne_fresh (by rw [hstage]; rfl))
    · exact h u c q hstage hq
  | deleted =>
    intro u c q hstage hq
    exact h u c q hstage (Kernel.queue_of_delete hq).2
  | declined _ _ _ _ hqueue hpossible =>
    intro u c q hstage hq
    rcases Kernel.stage_of_update hstage with ⟨_, heq⟩ | ⟨_, hstage⟩
    · cases heq
      cases hqueue.symm.trans hq
      exact hpossible
    · exact h u c q hstage hq
  | transferred hcur hrun hlook hqueue hpossible =>
    intro u c q hstage hq
    rcases Kernel.stage_of_update hstage with ⟨_, heq⟩ | ⟨_, hstage⟩
    · cases heq
    · have hx := hwindow.queue_ne hinv
        (Kernel.transferring_eq hcur hrun hlook hqueue hpossible) hstage
      rcases Kernel.queue_of_update hq with ⟨heq, _⟩ | ⟨_, hq⟩
      · exact absurd heq hx
      · exact h u c q hstage hq

theorem Call.possible_eq_false (h : c.possible q = false) :
    if c.isSend then q.uxLength ≤ q.uxMessagesWaiting else q.uxMessagesWaiting = 0 := by
  cases c with
  | prvSend => simpa [possible, isSend] using h
  | xQueueReceive => simpa [possible, isSend] using h

/-- A transfer in the window makes possible what the blocking task found to be
    impossible. -/
theorem possible_of_transfer {c' : Call} {q₁ : Queue} {item : Item}
    (hle : c'.isSend = true → q.uxMessagesWaiting ≤ q.uxLength) (hpossible : c.possible q = true)
    (hcopy : c.copy q = some (item, q₁)) (hlooked : c'.possible q = false) :
    c'.possible (c.settled t q₁) = true := by
  obtain ⟨hlength, _, _, _, hcount⟩ := Call.copy_fields hcopy
  cases c with
  | prvSend =>
    simp only [Call.isSend, if_true] at hcount
    cases c' with
    | prvSend =>
      simp only [Call.possible, decide_eq_true_eq, decide_eq_false_iff_not] at hpossible hlooked
      exact absurd hpossible hlooked
    | xQueueReceive => simp [Call.possible, hcount]
  | xQueueReceive =>
    simp only [Call.isSend, Bool.false_eq_true, if_false] at hcount
    cases c' with
    | prvSend =>
      have hle := hle rfl
      simp only [Call.possible, decide_eq_true_eq, Call.settled_uxMessagesWaiting,
        Call.settled_uxLength] at hpossible ⊢
      omega
    | xQueueReceive =>
      simp only [Call.possible, decide_eq_true_eq, decide_eq_false_iff_not] at hpossible hlooked
      exact absurd hpossible hlooked

/-- Only a section that transfers can break what the blocking tasks saw, and it
    does when one of them is in the window. -/
theorem noWindow_of_looked
    (hcounts : ∀ t c q, k.stage t = .block c → c.isSend = true → k.queue c.xQueue = some q →
      q.uxMessagesWaiting ≤ q.uxLength) (h : Looked k) (h' : Looked k')
    (heffect : KernelEffect k .resume k') : NoWindow k .resume := by
  refine ⟨?_, trivial⟩
  rintro ⟨t, c, q⟩ htransfer u hu c' hc' hx
  have hx : c'.xQueue = c.xQueue := hx
  have hblock := Stage.blocking_eq_some.mp hc'
  obtain ⟨_, _, _, hstage, hqueue, hpossible⟩ := Kernel.transferring_inv htransfer
  obtain ⟨item, q₁, y, σ₁, σ', hcopy, _, _, rfl⟩ := heffect.of_transferring htransfer
  have hut : u ≠ t := by
    rintro rfl
    rw [hblock] at hstage
    rcases hstage with hstage | hstage
    · cases hstage
    · cases hstage
  have hlooked := h u c' q hblock (hx ▸ hqueue)
  have hlooked' := h' u c' (c.settled t q₁) (by simp [hut, hblock]) (by simp [hx])
  have hle : c'.isSend = true → q.uxMessagesWaiting ≤ q.uxLength :=
    fun hsend => hcounts u c' q hblock hsend (hx ▸ hqueue)
  rw [possible_of_transfer hle hpossible hcopy hlooked] at hlooked'
  cases hlooked'

/-! ### Every run -/

theorem looked_of_reach (h : (kernel.restrict NoWindow).Reach k) : Looked k := by
  refine kernel_invariant (P := Looked) ?_ ?_ h
  · intro t c q hstage
    cases hstage
  · intro k a k' hreach ih hwindow heffect
    exact looked_step (kernel_inv hreach.of_restrict) ih hwindow heffect

/-- The step places `t` on the list `e`. -/
def Enlists (k k' : Kernel) (t : TaskId) (e : ListId) : Prop :=
  k.sched.eventList t ≠ some e ∧ k'.sched.eventList t = some e

instance (k k' : Kernel) (t : TaskId) (e : ListId) : Decidable (Enlists k k' t e) :=
  inferInstanceAs (Decidable (_ ∧ _))

/-- Only the second section of a call enlists, and it does not touch the queue. -/
theorem enlists_inv (heffect : KernelEffect k a k') {e : ListId} (h : Enlists k k' t e) :
    ∃ c q, k.stage t = .block c ∧ e = c.waitList ∧ k.queue c.xQueue = some q ∧
      k'.queue = k.queue := by
  obtain ⟨hbefore, hafter⟩ := h
  cases heffect with
  | quiet hquiet => exact absurd (hquiet.event t ▸ hafter) hbefore
  | opened _ hquiet => exact absurd (hquiet.event t ▸ hafter) hbefore
  | deleted => exact absurd hafter hbefore
  | called => exact absurd hafter hbefore
  | refused => exact absurd hafter hbefore
  | declined => exact absurd hafter hbefore
  | returned => exact absurd hafter hbefore
  | @ticked σ hwoke =>
    have hafter : σ.eventList t = some e := (quiet_switch σ).event t ▸ hafter
    exact absurd (hwoke.eventList_of_some hafter).1 hbefore
  | transferred _ _ _ _ _ _ hreleased hwake =>
    have hkept := hwake.eventList_of_some hafter
    rw [hreleased.frame.event] at hkept
    exact absurd hkept hbefore
  | @enlisted u c q σ₁ σ' _ _ hstage hqueue hboosted hblocked =>
    have hafter : σ'.eventList t = some e := hafter
    by_cases ht : t = u
    · subst ht
      have heq := Option.some.inj (hafter.symm.trans hblocked.event)
      exact ⟨c, q, hstage, heq, hqueue, rfl⟩
    · have hkept : σ₁.eventList t = some e := by
        rw [← hafter]
        simp only [Sched.eventList, (hblocked.other t ht).2]
      rw [hboosted.frame.event] at hkept
      exact absurd hkept hbefore

/-- **No lost wake-up along the runs without a window.**  A task is placed on the
    receivers' list only of an empty queue and on the senders' list only of a full
    one.  The condition is exact: the first section that does not meet it leaves a
    task about to enlist on a condition that already holds. -/
theorem no_lost_wakeup {k : Kernel} (h : (kernel.restrict NoWindow).Reach k) :
    (∀ a k', kernel.Step k a k' → ∀ t x,
      (Enlists k k' t (xTasksWaitingToReceive x) →
        ∃ q, k.queue x = some q ∧ k'.queue x = some q ∧ q.uxMessagesWaiting = 0) ∧
      (Enlists k k' t (xTasksWaitingToSend x) →
        ∃ q, k.queue x = some q ∧ k'.queue x = some q ∧ q.uxMessagesWaiting = q.uxLength)) ∧
    ∀ k', kernel.Step k .resume k' → (Looked k' ↔ NoWindow k .resume) := by
  have hlooked := looked_of_reach h
  have hcounts : ∀ t c q, k.stage t = .block c → c.isSend = true →
      k.queue c.xQueue = some q → q.uxMessagesWaiting ≤ q.uxLength :=
    fun t c q hstage => count_le_of_waiting (fun _ _ hr => hr.2) h (Or.inl hstage)
  constructor
  · intro a k' hstep t x
    have heffect := kernel_effect h.of_restrict hstep
    constructor
    · intro henlists
      obtain ⟨c, q, hstage, hlist, hqueue, hsame⟩ := enlists_inv heffect henlists
      have hnot := (hlooked t c q hstage hqueue)
      cases c with
      | prvSend => simp [Call.waitList] at hlist
      | xQueueReceive y =>
        have hx : x = y := by simpa [Call.waitList] using hlist
        subst hx
        exact ⟨q, hqueue, hsame ▸ hqueue, Call.possible_eq_false hnot⟩
    · intro henlists
      obtain ⟨c, q, hstage, hlist, hqueue, hsame⟩ := enlists_inv heffect henlists
      have hnot := (hlooked t c q hstage hqueue)
      cases c with
      | prvSend y =>
        have hx : x = y := by simpa [Call.waitList] using hlist
        subst hx
        exact ⟨q, hqueue, hsame ▸ hqueue,
          Nat.le_antisymm (hcounts t _ q hstage rfl hqueue) (Call.possible_eq_false hnot)⟩
      | xQueueReceive => simp [Call.waitList] at hlist
  · intro k' hstep
    have heffect := kernel_effect h.of_restrict hstep
    constructor
    · intro hlooked'
      exact noWindow_of_looked hcounts hlooked hlooked' heffect
    · intro hwindow
      exact looked_step (kernel_inv h.of_restrict) hlooked hwindow heffect

/-- Task 0 finds the semaphore empty and goes on to enlist, with nobody between. -/
def emptySchedule : List Action :=
  [.xTaskCreate ⟨true, true⟩ 1, .xTaskCreate ⟨true, true⟩ 1, .vTaskStartScheduler ⟨true, true⟩,
    .xQueueCreate (some 0) 1 0, .call (xSemaphoreTake 0 portMaxDelay), .resume]

theorem no_lost_wakeup_empty :
    ∃ k k', (kernel.restrict NoWindow).Reach k ∧ kernel.Step k .resume k' ∧
      Enlists k k' 0 (xTasksWaitingToReceive 0) ∧
      ∃ q, k.queue 0 = some q ∧ k'.queue 0 = some q ∧ q.uxMessagesWaiting = 0 := by
  obtain ⟨k, hreach, hk⟩ := (kernel.restrict NoWindow).exists_reach emptySchedule
    (fun k => kernel.guard k .resume ∧
      (k.exec .resume).any fun k' => Enlists k k' 0 (xTasksWaitingToReceive 0)) (by decide +kernel)
  obtain ⟨hguard, hexec⟩ := of_decide_eq_true hk
  obtain ⟨k', hstep, hk'⟩ := Machine.exists_step hguard hexec
  have henlists := of_decide_eq_true hk'
  exact ⟨k, k', hreach, hstep, henlists,
    ((no_lost_wakeup hreach).1 .resume k' hstep 0 0).1 henlists⟩

/-- Task 0 finds the semaphore empty and is preempted by task 1, which gives it
    and is preempted in turn. -/
def windowSchedule : List Action :=
  [.xTaskCreate ⟨true, true⟩ 1, .xTaskCreate ⟨true, true⟩ 1, .vTaskStartScheduler ⟨true, true⟩,
    .xQueueCreate (some 0) 1 0, .call (xSemaphoreTake 0 portMaxDelay), .resume, .tick, .tick,
    .call (xSemaphoreGive 0), .resume, .resume, .tick]

/-- Then task 0 is suspended without a time limit on a semaphore that is there. -/
theorem enlists_on_nonempty :
    ∃ k k', kernel.Run kernel.init windowSchedule k ∧ kernel.Step k .resume k' ∧
      Enlists k k' 0 (xTasksWaitingToReceive 0) ∧
      k'.sched.stateList 0 = some xSuspendedTaskList ∧
      (k.queue 0).map Queue.uxMessagesWaiting = some 1 ∧
      (k'.queue 0).map Queue.uxMessagesWaiting = some 1 := by
  obtain ⟨k, hrun, hk⟩ := kernel.exists_run windowSchedule
    (fun k => kernel.guard k .resume ∧ (k.queue 0).map Queue.uxMessagesWaiting = some 1 ∧
      (k.exec .resume).any fun k' => Enlists k k' 0 (xTasksWaitingToReceive 0) ∧
        k'.sched.stateList 0 = some xSuspendedTaskList ∧
        (k'.queue 0).map Queue.uxMessagesWaiting = some 1) (by decide +kernel)
  obtain ⟨hguard, hcount, hexec⟩ := of_decide_eq_true hk
  obtain ⟨k', hstep, hk'⟩ := Machine.exists_step hguard hexec
  obtain ⟨henlists, hsuspended, hcount'⟩ := of_decide_eq_true hk'
  exact ⟨k, k', hrun, hstep, henlists, hsuspended, hcount, hcount'⟩

end FlintRTOS
