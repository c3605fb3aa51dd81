import FlintRTOS.QueueDebt
import FlintRTOS.SchedSleep

/-!
# Are timeouts honoured?

A call with timeout `n` may fail only when `n` ticks have passed since it was
made, and never when `n` is `portMAX_DELAY`.  Two things break that in the code:

* a task that was woken by a transfer finds that another task was faster, and
  fails at once, whatever its timeout;
* `xTickCount + n` wraps around, and the task is due at the next tick.

`Punctual` is the step condition that excludes the two.
-/

namespace FlintRTOS

open ListId ItemId

/-! ### What a step does to a task on an event list -/

variable {σ σ₁ : Sched} {u t : TaskId} {e : ListId} {c : Call} {q : Queue} {k : Kernel}
  {n : TickType} {j : Nat}

theorem not_ready_of_linked (h : σ.Inv) (hu : σ.eventList u = some e) : ¬ σ.Ready u := by
  intro hready
  rw [(h.tasks u (h.lt_of_eventList hu)).ready_free hready] at hu
  cases hu

theorem Reprioritised.item_of_linked {p : Nat} (hre : Reprioritised t p σ σ₁) (h : σ.Inv)
    (hu : σ.eventList u = some e) :
    σ₁.lists.item (xStateListItem u) = σ.lists.item (xStateListItem u) := by
  by_cases heq : u = t
  · subst heq
    exact hre.state u (Or.inr (not_ready_of_linked h hu))
  · exact hre.state u (Or.inl heq)

theorem Released.item_of_linked (hreleased : Released c q σ σ₁) (h : σ.Inv)
    (hu : σ.eventList u = some e) :
    σ₁.lists.item (xStateListItem u) = σ.lists.item (xStateListItem u) := by
  cases hreleased with
  | restored _ _ _ _ hre => exact hre.item_of_linked h hu
  | kept => rfl

theorem Boosted.item_of_linked (hboosted : Boosted c q t σ σ₁) (h : σ.Inv)
    (hu : σ.eventList u = some e) :
    σ₁.lists.item (xStateListItem u) = σ.lists.item (xStateListItem u) := by
  cases hboosted with
  | raised _ _ _ _ _ hre => exact hre.item_of_linked h hu
  | kept => rfl

theorem EventWake.item_of_linked {e' : ListId} {σ' : Sched} {y : Bool} (hwake : EventWake e σ y σ')
    (hu : σ'.eventList u = some e') :
    σ'.lists.item (xStateListItem u) = σ.lists.item (xStateListItem u) := by
  rcases hwake.waiters with ⟨_, rfl⟩ | ⟨w, _, hfree, hother⟩
  · rfl
  · have hne : u ≠ w := by
      rintro rfl
      rw [hfree] at hu
      cases hu
    exact (hother u hne).1

/-- A task that is on an event list after a step: it has just enlisted, or it was
    there before and the step left it alone, or the step was a tick that did not
    reach its wake time. -/
inductive Linked (k : Kernel) (u : TaskId) : Action → Kernel → Prop where
  | enlisted {c : Call} {k' : Kernel} (hcur : k.sched.pxCurrentTCB = some u)
      (hrun : k.yielding u = false) (hstage : k.stage u = .block c)
      (hstage' : k'.stage u = .wait c) (hlog : k'.log = k.log)
      (htick : k'.sched.xTickCount = k.sched.xTickCount)
      (hsuspended : c.xTicksToWait = portMaxDelay →
        k'.sched.stateList u = some xSuspendedTaskList)
      (hdelayed : c.xTicksToWait ≠ portMaxDelay →
        k'.sched.stateList u = some xDelayedTaskList ∧
          k'.sched.wakeTime u = k.sched.xTickCount + c.xTicksToWait) : Linked k u .resume k'
  | kept {a : Action} {k' : Kernel} (hlinked : k.sched.eventList u ≠ none)
      (hstage : k'.stage u = k.stage u)
      (hitem : k'.sched.lists.item (xStateListItem u) = k.sched.lists.item (xStateListItem u))
      (htick : k'.sched.xTickCount = k.sched.xTickCount)
      (hsince : ticksSinceCall u k'.log = ticksSinceCall u k.log) : Linked k u a k'
  | ticked {k' : Kernel} (hlinked : k.sched.eventList u ≠ none)
      (hstage : k'.stage u = k.stage u)
      (hitem : k'.sched.lists.item (xStateListItem u) = k.sched.lists.item (xStateListItem u))
      (htick : k'.sched.xTickCount = k.sched.xTickCount + 1)
      (hsince : ticksSinceCall u k'.log = ticksSinceCall u k.log + 1)
      (hdue : ¬ (k.sched.setTickCount (k.sched.xTickCount + 1)).Due u) : Linked k u .tick k'

theorem KernelEffect.linked {k' : Kernel} {a : Action} (hinv : k.Inv)
    (heffect : KernelEffect k a k') (hu : k'.sched.eventList u = some e) : Linked k u a k' := by
  -- the running task is on no event list
  have hne : ∀ {t}, k.sched.pxCurrentTCB = some t → k.yielding t = false →
      k.sched.eventList u = some e → u ≠ t := by
    rintro t hcur hrun hu rfl
    rw [hinv.free hcur hrun] at hu
    cases hu
  cases heffect with
  | quiet hquiet =>
    have hlinked : k.sched.eventList u ≠ none := by
      rw [← hquiet.event u, hu]
      simp
    exact .kept hlinked rfl (hquiet.waiting u hlinked) hquiet.tick rfl
  | opened _ hquiet =>
    have hlinked : k.sched.eventList u ≠ none := by
      rw [← hquiet.event u]
      exact hu ▸ Option.some_ne_none e
    exact .kept hlinked rfl (hquiet.waiting u hlinked) hquiet.tick rfl
  | deleted => exact .kept (hu ▸ Option.some_ne_none e) rfl rfl rfl rfl
  | called hcur hrun =>
    have hu' := hne hcur hrun hu
    refine .kept (hu ▸ Option.some_ne_none e) (by simp [hu']) rfl rfl ?_
    simp [ticksSinceCall, Ne.symm hu']
  | refused hcur hrun | declined hcur hrun | returned hcur hrun =>
    exact .kept (hu ▸ Option.some_ne_none e) (by simp [hne hcur hrun hu]) rfl rfl rfl
  | @transferred t c q q₁ item y σ₁ σ' hcur hrun _ _ _ _ hreleased hwake =>
    have htick := hreleased.frame.tick
    have hevent := hreleased.frame.event
    have hu : σ'.eventList u = some e := hu
    have hlinked : k.sched.eventList u = some e := hevent u ▸ hwake.eventList_of_some hu
    refine .kept (hlinked ▸ Option.some_ne_none e) (by simp [hne hcur hrun hlinked]) ?_ ?_ rfl
    · exact (hwake.item_of_linked hu).trans (hreleased.item_of_linked hinv.sched hlinked)
    · obtain ⟨top, lists, rfl⟩ := hwake.frame
      exact htick
  | @enlisted t c q σ₁ σ' hcur hrun hstage _ hboosted hblocked =>
    have htick := hboosted.frame.tick
    have hevent := hboosted.frame.event
    have hu : σ'.eventList u = some e := hu
    have htick' : σ'.xTickCount = k.sched.xTickCount := by
      obtain ⟨lists, rfl⟩ := hblocked.frame
      exact htick
    by_cases heq : u = t
    · subst heq
      refine .enlisted hcur hrun hstage (by simp) rfl htick' ?_ ?_
      · exact hblocked.suspended (by simp)
      · intro hmax
        obtain ⟨hstate, hwake⟩ := hblocked.delayed (Or.inr hmax)
        exact ⟨hstate, htick ▸ hwake⟩
    · obtain ⟨hstate, hother⟩ := hblocked.other u heq
      have hlinked : k.sched.eventList u = some e := by
        rw [← hevent u, ← hu]
        simp only [Sched.eventList, hother]
      exact .kept (hlinked ▸ Option.some_ne_none e) (by simp [heq])
        (hstate.trans (hboosted.item_of_linked hinv.sched hlinked)) htick' rfl
  | @ticked σ hwoke =>
    have hswitch := quiet_switch σ
    have hu : σ.eventList u = some e := hswitch.event u ▸ hu
    obtain ⟨hlinked, hdue, hitem⟩ := hwoke.eventList_of_some hu
    refine .ticked (hlinked ▸ Option.some_ne_none e) rfl ?_ ?_ rfl hdue
    · exact (hswitch.waiting u (hu ▸ Option.some_ne_none e)).trans hitem
    · obtain ⟨top, lists, rfl⟩ := hwoke.frame
      rfl

/-! ### Where a waiting task is filed -/

theorem suspended_of_linked (h : kernel.Reach k) (hstage : k.stage u = .wait c)
    (hlinked : k.sched.eventList u ≠ none) (hmax : c.xTicksToWait = portMaxDelay) :
    k.sched.stateList u = some xSuspendedTaskList := by
  refine kernel_invariant (P := fun k => ∀ u c, k.stage u = .wait c →
    k.sched.eventList u ≠ none → c.xTicksToWait = portMaxDelay →
      k.sched.stateList u = some xSuspendedTaskList) ?_ ?_ h.restrict_true u c hstage hlinked hmax
  · intro u c hstage
    cases hstage
  intro k a k' hreach ih _ heffect u c hstage hlinked hmax
  obtain ⟨e, he⟩ := Option.ne_none_iff_exists'.mp hlinked
  cases heffect.linked (kernel_inv hreach.of_restrict) he with
  | enlisted _ _ _ hstage' _ _ hsuspended =>
    cases hstage.symm.trans hstage'
    exact hsuspended hmax
  | kept hlinked hsame hitem | ticked hlinked hsame hitem =>
    rw [Sched.stateList, hitem]
    exact ih u c (hsame ▸ hstage) hlinked hmax

/-- A task that blocked for `n` ticks at the tick count `c`, `j` ticks ago. -/
structure Deadline (k : Kernel) (u : TaskId) (n c : TickType) (j : Nat) : Prop where
  noWrap : NoWrap c n
  filed : k.sched.stateList u = some xDelayedTaskList
  wake : k.sched.wakeTime u = c + n
  now : k.sched.xTickCount = c + UInt32.ofNat j
  early : j < n.toNat
  since : j ≤ ticksSinceCall u k.log

theorem Deadline.next {c : TickType} (h : Deadline k u n c j) :
    k.sched.xTickCount + 1 = c + UInt32.ofNat (j + 1) := by
  rw [h.now, UInt32.ofNat_add, ← UInt32.add_assoc]
  rfl

/-- The next tick is due to wake it only if it is the last. -/
theorem Deadline.late {c : TickType} (h : Deadline k u n c j)
    (hdue : (k.sched.setTickCount (k.sched.xTickCount + 1)).Due u) : n.toNat ≤ j + 1 := by
  by_contra hlt
  have hle : k.sched.wakeTime u ≤ k.sched.xTickCount + 1 := hdue.2
  rw [h.wake, h.next] at hle
  exact UInt32.not_lt.mpr hle (h.noWrap.late (Nat.succ_pos j) (Nat.not_le.mp hlt))

theorem Deadline.of_tick {k' : Kernel} {c : TickType} (h : Deadline k u n c j)
    (hitem : k'.sched.lists.item (xStateListItem u) = k.sched.lists.item (xStateListItem u))
    (htick : k'.sched.xTickCount = k.sched.xTickCount + 1)
    (hsince : ticksSinceCall u k'.log = ticksSinceCall u k.log + 1)
    (hdue : ¬ (k.sched.setTickCount (k.sched.xTickCount + 1)).Due u) :
    Deadline k' u n c (j + 1) := by
  refine ⟨h.noWrap, ?_, ?_, htick.trans h.next, ?_, ?_⟩
  · rw [Sched.stateList, hitem]
    exact h.filed
  · rw [Sched.wakeTime, hitem]
    exact h.wake
  · -- it would be due at its last tick
    by_contra hlast
    refine hdue ⟨h.filed, ?_⟩
    have hj : j + 1 = n.toNat := Nat.le_antisymm h.early (Nat.not_lt.mp hlast)
    change k.sched.wakeTime u ≤ k.sched.xTickCount + 1
    rw [h.wake, h.next, hj, UInt32.ofNat_toNat]
    exact UInt32.le_refl _
  · rw [hsince]
    exact Nat.succ_le_succ h.since

/-! ### The step condition -/

/-- The call may not fail `i` ticks after it was made. -/
def entitled (c : Call) (i : Nat) : Bool :=
  decide (c.xTicksToWait = portMaxDelay ∨ i < c.xTicksToWait.toNat)

/-- No section steals, and no wake time wraps around. -/
structure Punctual (k : Kernel) (a : Action) : Prop where
  noSteal : NoSteal entitled k a
  noWrap : a = .resume → ∀ t ∈ k.sched.pxCurrentTCB, k.yielding t = false →
    ∀ c ∈ (k.stage t).blocking,
      c.xTicksToWait = portMaxDelay ∨ NoWrap k.sched.xTickCount c.xTicksToWait
  within : WithinLength k a

instance (k : Kernel) (a : Action) : Decidable (Punctual k a) :=
  decidable_of_iff (NoSteal entitled k a ∧ (a = .resume → ∀ t ∈ k.sched.pxCurrentTCB,
    k.yielding t = false → ∀ c ∈ (k.stage t).blocking,
      c.xTicksToWait = portMaxDelay ∨ NoWrap k.sched.xTickCount c.xTicksToWait) ∧
        WithinLength k a) ⟨fun h => ⟨h.1, h.2.1, h.2.2⟩, fun h => ⟨h.1, h.2, h.3⟩⟩

theorem deadline_of_linked (h : (kernel.restrict Punctual).Reach k) (hstage : k.stage u = .wait c)
    (hlinked : k.sched.eventList u ≠ none) (hmax : c.xTicksToWait ≠ portMaxDelay) :
    ∃ c₀ j, Deadline k u c.xTicksToWait c₀ j := by
  refine kernel_invariant (P := fun k => ∀ u c, k.stage u = .wait c →
    k.sched.eventList u ≠ none → c.xTicksToWait ≠ portMaxDelay →
      ∃ c₀ j, Deadline k u c.xTicksToWait c₀ j) ?_ ?_ h u c hstage hlinked hmax
  · intro u c hstage
    cases hstage
  intro k a k' hreach ih hpunctual heffect u c hstage hlinked hmax
  obtain ⟨e, he⟩ := Option.ne_none_iff_exists'.mp hlinked
  cases heffect.linked (kernel_inv hreach.of_restrict) he with
  | enlisted hcur hrun hblock hstage' hlog htick _ hdelayed =>
    cases hstage.symm.trans hstage'
    obtain ⟨hfiled, hwake⟩ := hdelayed hmax
    have hwrap := (hpunctual.noWrap rfl u hcur hrun c
      (Stage.blocking_eq_some.mpr hblock)).resolve_left hmax
    have hzero := ticksToWait_ne_zero hreach.of_restrict (Or.inl hblock)
    refine ⟨k.sched.xTickCount, 0, hwrap, hfiled, hwake, by simpa using htick, ?_, Nat.zero_le _⟩
    refine Nat.pos_of_ne_zero fun h => hzero ?_
    exact UInt32.toNat_inj.mp h
  | kept hlinked hsame hitem htick hsince =>
    obtain ⟨c₀, j, hdeadline⟩ := ih u c (hsame ▸ hstage) hlinked hmax
    refine ⟨c₀, j, hdeadline.noWrap, ?_, ?_, htick.trans hdeadline.now, hdeadline.early,
      hsince ▸ hdeadline.since⟩
    · rw [Sched.stateList, hitem]
      exact hdeadline.filed
    · rw [Sched.wakeTime, hitem]
      exact hdeadline.wake
  | ticked hlinked hsame hitem htick hsince hdue =>
    obtain ⟨c₀, j, hdeadline⟩ := ih u c (hsame ▸ hstage) hlinked hmax
    exact ⟨c₀, j + 1, hdeadline.of_tick hitem htick hsince hdue⟩

/-- A task that a tick wakes is no longer entitled to wait. -/
theorem not_entitled_of_due (h : (kernel.restrict Punctual).Reach k) (hstage : k.stage t = .wait c)
    (hlinked : k.sched.eventList t ≠ none)
    (hdue : (k.sched.setTickCount (k.sched.xTickCount + 1)).Due t) :
    entitled c (ticksSinceCall t k.log + 1) = false := by
  have hmax : c.xTicksToWait ≠ portMaxDelay := by
    intro hmax
    have hsuspended := suspended_of_linked h.of_restrict hstage hlinked hmax
    cases hsuspended.symm.trans hdue.1
  obtain ⟨c₀, j, hdeadline⟩ := deadline_of_linked h hstage hlinked hmax
  have hlate := hdeadline.late hdue
  have hsince := hdeadline.since
  refine decide_eq_false ?_
  rintro (heq | hlt)
  · exact hmax heq
  · omega

/-! ### Every run -/

theorem entitled_anti (c : Call) (i : Nat) (h : entitled c (i + 1) = true) :
    entitled c i = true := by
  rcases of_decide_eq_true h with hmax | hlt
  · exact decide_eq_true (Or.inl hmax)
  · exact decide_eq_true (Or.inr (Nat.lt_of_succ_lt hlt))

theorem Punctual.fits (h : (kernel.restrict Punctual).Reach k) (hstage : k.stage t = .wait c)
    (hsend : c.isSend = true) (_ : entitled c (ticksSinceCall t k.log) = true)
    (hq : k.queue c.xQueue = some q) : q.uxMessagesWaiting ≤ q.uxLength :=
  count_le_of_waiting (fun _ _ hr => hr.within) h (Or.inr hstage) hsend hq

/-- **Timeouts are honoured along the punctual runs.**  A call that could wait and
    returned failure had a time limit, and at least that many ticks came between
    the call and its return.  The condition on the sections is exact: the first
    that steals leaves the queue with more owed tasks than it can serve. -/
theorem timeouts_honoured {k : Kernel} (h : (kernel.restrict Punctual).Reach k) :
    (∀ t c item l, .ret t c c.failure item :: l <:+ k.log → c.xTicksToWait ≠ 0 →
      session t l = some (.pending c) ∧ c.xTicksToWait ≠ portMaxDelay ∧
        c.xTicksToWait.toNat ≤ ticksSinceCall t l) ∧
    ∀ k', kernel.Step k .resume k' → (Covered entitled k' ↔ NoSteal entitled k .resume) := by
  constructor
  · intro t c item l hl hwait
    obtain ⟨_, _, hfailed⟩ := failedLate_of_reach (P := entitled)
      (fun _ _ => Punctual.noSteal) (fun _ _ _ _ => Punctual.fits) entitled_anti
      (fun _ _ _ => not_entitled_of_due) h
    have hlate := of_decide_eq_false (hfailed t c item l hl hwait)
    rw [not_or, Nat.not_lt] at hlate
    rcases session_of_ret h.of_restrict hl with ⟨hpass, _⟩ | ⟨_, hsession⟩
    · exact absurd hpass c.failure_ne_pdPass
    · exact ⟨hsession, hlate.1, hlate.2⟩
  · intro k' hstep
    exact covered_iff_noSteal (P := entitled) (fun _ _ => Punctual.noSteal)
      (fun _ _ _ _ => Punctual.fits) entitled_anti (fun _ _ _ => not_entitled_of_due) h hstep

/-- Task 0 waits two ticks for a semaphore that nobody gives. -/
def expiredSchedule : List Action :=
  [.xTaskCreate ⟨true, true⟩ 1, .vTaskStartScheduler ⟨true, true⟩, .xQueueCreate (some 0) 1 0,
    .call (xSemaphoreTake 0 2), .resume, .resume, .resume, .tick, .tick, .resume, .resume]

theorem timeouts_honoured_expired :
    ∃ k l, (kernel.restrict Punctual).Reach k ∧
      k.log = .ret 0 (xSemaphoreTake 0 2) errQueueEmpty [] :: l ∧ 2 ≤ ticksSinceCall 0 l := by
  obtain ⟨k, hreach, hk⟩ := (kernel.restrict Punctual).exists_reach expiredSchedule
    (fun k => k.log.head? = some (.ret 0 (xSemaphoreTake 0 2) errQueueEmpty []))
    (by decide +kernel)
  obtain ⟨l, hl⟩ := List.head?_eq_some_iff.mp (of_decide_eq_true hk)
  refine ⟨k, l, hreach, hl, ?_⟩
  have hret : .ret 0 (xSemaphoreTake 0 2) (xSemaphoreTake 0 2).failure [] :: l <:+ k.log :=
    hl ▸ List.suffix_refl _
  exact ((timeouts_honoured hreach).1 0 _ [] l hret (by decide)).2.2

/-- Task 0 waits for a semaphore without a time limit; task 1, of the same
    priority, gives it, which wakes task 0, and takes it again before task 0 runs. -/
def stealSchedule : List Action :=
  [.xTaskCreate ⟨true, true⟩ 1, .xTaskCreate ⟨true, true⟩ 1, .vTaskStartScheduler ⟨true, true⟩,
    .xQueueCreate (some 0) 1 0, .call (xSemaphoreTake 0 portMaxDelay), .resume, .resume, .resume,
    .call (xSemaphoreGive 0), .resume, .resume, .call (xSemaphoreTake 0 portMaxDelay), .resume,
    .resume, .tick, .resume, .resume]

/-- Task 0 looks once more and returns failure, after one tick. -/
theorem unlimited_take_fails :
    ∃ k l, kernel.Run kernel.init stealSchedule k ∧
      k.log = .ret 0 (xSemaphoreTake 0 portMaxDelay) errQueueEmpty [] :: l ∧
      session 0 l = some (.pending (xSemaphoreTake 0 portMaxDelay)) ∧ ticksSinceCall 0 l = 1 := by
  obtain ⟨k, hrun, hk⟩ := kernel.exists_run stealSchedule
    (fun k => k.log.head? = some (.ret 0 (xSemaphoreTake 0 portMaxDelay) errQueueEmpty []) ∧
      session 0 k.log.tail = some (.pending (xSemaphoreTake 0 portMaxDelay)) ∧
      ticksSinceCall 0 k.log.tail = 1) (by decide +kernel)
  obtain ⟨hhead, hsession, hticks⟩ := of_decide_eq_true hk
  obtain ⟨l, hl⟩ := List.head?_eq_some_iff.mp hhead
  rw [hl] at hsession hticks
  exact ⟨k, l, hrun, hl, hsession, hticks⟩

end FlintRTOS
