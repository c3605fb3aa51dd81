import FlintRTOS.KernelInvariant

/-!
# The kernel runs the scheduler

Every action of the kernel machine is a short schedule of the scheduler machine
on the scheduler's part of the state, so what holds over all schedules of the
scheduler holds under the kernel's queue calls too.

The scheduler machine only lets a task owe a `taskYIELD` after it has blocked
itself.  In the kernel a task also owes one after it woke a task of higher
priority.  It may do less there than the scheduler would let it, so the two program
counters are related in one direction only.
-/

namespace FlintRTOS

open ListId ItemId

/-- The scheduler state `s` is the scheduler's part of `k`, and a task that owes
    a `taskYIELD` in `s` owes it in `k`. -/
structure Schedules (k : Kernel) (s : SchedSys) : Prop where
  sched : s.sched = k.sched
  yielding : ∀ t, s.yielding t = true → k.yielding t = true

theorem Schedules.boot : Schedules Kernel.boot scheduler.init :=
  ⟨rfl, fun _ h => h⟩

namespace Schedules

variable {k : Kernel} {s : SchedSys} {t : TaskId}

theorem current (h : Schedules k s) (hcur : k.sched.pxCurrentTCB = some t) :
    s.sched.pxCurrentTCB = some t := by
  rw [h.sched, hcur]

theorem not_yielding (h : Schedules k s) (hrun : k.yielding t = false) :
    s.yielding t = false := by
  cases hyield : s.yielding t with
  | false => rfl
  | true => exact absurd (hrun.symm.trans (h.yielding t hyield)) (by simp)

/-- A task that owes no `taskYIELD` in the kernel may call the scheduler. -/
theorem mayCall (h : Schedules k s) (hcur : k.sched.pxCurrentTCB = some t)
    (hrun : k.yielding t = false) : s.mayCall = true := by
  simp [SchedSys.mayCall, h.current hcur, h.not_yielding hrun]

theorem mayBlock (h : Schedules k s) (hcur : k.sched.pxCurrentTCB = some t)
    (hrun : k.yielding t = false) (hidle : k.sched.xIdle ≠ some t) : s.mayBlock = true := by
  rw [SchedSys.mayBlock, h.mayCall hcur hrun, h.current hcur, h.sched]
  simpa using hidle

/-- The running task `t` sets or clears its own mark in both states. -/
theorem setYielding (h : Schedules k s) (hcur : k.sched.pxCurrentTCB = some t) (b : Bool) :
    ∀ u, s.setYielding b u = true → Function.update k.yielding t b u = true := by
  intro u hu
  simp only [SchedSys.setYielding, h.current hcur] at hu
  by_cases htu : u = t
  · subst htu
    simpa using hu
  · rw [Function.update_of_ne htu] at hu ⊢
    exact h.yielding u hu

/-- The mark of a task that owes nothing in `s` is free in `k`. -/
theorem mark (h : Schedules k s) (hrun : k.yielding t = false) (b : Bool) :
    ∀ u, s.yielding u = true → Function.update k.yielding t b u = true := by
  intro u hu
  have htu : u ≠ t := by
    rintro rfl
    exact absurd (hrun.symm.trans (h.yielding u hu)) (by simp)
  rw [Function.update_of_ne htu]
  exact h.yielding u hu

end Schedules

/-! ### The critical sections as schedules -/

section sections

variable {c : Call} {q q' : Queue} {s : SchedSys} {σ : Sched}

theorem validHandle_of_lt {holder : Option TaskId}
    (h : ∀ t, holder = some t → t < s.sched.uxCurrentNumberOfTasks) :
    s.validHandle holder = true := by
  cases holder with
  | none => rfl
  | some t => simpa [SchedSys.validHandle] using h t rfl

theorem Call.settle_run
    (hholder : ∀ u, q.pxMutexHolder = some u → u < s.sched.uxCurrentNumberOfTasks)
    (hexec : c.settle q s.sched = some (q', σ)) :
    ∃ ops, scheduler.Run s ops ⟨σ, s.yielding⟩ := by
  unfold settle at hexec
  split at hexec
  · split at hexec
    · obtain ⟨r, hr, heq⟩ := Option.bind_eq_some_iff.mp hexec
      cases heq
      exact ⟨[.vTaskPriorityDisinherit q.pxMutexHolder], .single ⟨validHandle_of_lt hholder, by
        simp [scheduler, SchedSys.exec, hr]⟩⟩
    · cases hexec
      exact ⟨[], .refl⟩
  · cases hexec
    exact ⟨[], .refl⟩

theorem Call.transfer_run {t : TaskId} {b : Bool} {item : Item} (hinv : s.sched.Inv)
    (hcur : s.sched.pxCurrentTCB = some t) (hrun : s.yielding t = false)
    (hholder : ∀ u, q.pxMutexHolder = some u → u < s.sched.uxCurrentNumberOfTasks)
    (hexec : c.transfer q s.sched = some (b, item, q', σ)) :
    ∃ ops, scheduler.Run s ops ⟨σ, s.yielding⟩ := by
  obtain ⟨⟨item', q₁⟩, hcopy, hexec⟩ := Option.bind_eq_some_iff.mp hexec
  obtain ⟨⟨q₂, σ₁⟩, hsettle, hexec⟩ := Option.bind_eq_some_iff.mp hexec
  obtain ⟨⟨b', σ₂⟩, hremove, heq⟩ := Option.bind_eq_some_iff.mp hexec
  cases heq
  obtain ⟨_, _, _, hsame, _⟩ := copy_fields hcopy
  obtain ⟨ops, hrun₁⟩ := settle_run (hsame ▸ hholder) hsettle
  -- the priority change leaves the running task where it was
  obtain ⟨σ₁', hsettle', hreleased, _⟩ := settle_effect (c := c) hinv hcur (hsame ▸ hholder)
  cases hsettle.symm.trans hsettle'
  have hcall : SchedSys.mayCall ⟨σ₁, s.yielding⟩ = true := by
    simp [SchedSys.mayCall, hreleased.frame.current, hcur, hrun]
  have hstep : scheduler.Step ⟨σ₁, s.yielding⟩ (.xTaskRemoveFromEventList c.wakeList)
      ⟨σ, s.yielding⟩ := by
    refine ⟨?_, by simp [scheduler, SchedSys.exec, hremove]⟩
    exact Bool.and_eq_true_iff.mpr ⟨c.isEventList_wakeList, hcall⟩
  exact ⟨_, hrun₁.tail hstep⟩

theorem Call.enlist_run {t : TaskId} (hinv : s.sched.Inv)
    (hcur : s.sched.pxCurrentTCB = some t) (hrun : s.yielding t = false)
    (hidle : s.sched.xIdle ≠ some t)
    (hholder : ∀ u, q.pxMutexHolder = some u → u < s.sched.uxCurrentNumberOfTasks)
    (hexec : c.enlist q s.sched = some σ) :
    ∃ ops, scheduler.Run s ops ⟨σ, s.setYielding true⟩ := by
  obtain ⟨σ₁, hboost, hplace⟩ := Option.bind_eq_some_iff.mp hexec
  obtain ⟨σ₁', hboost', hboosted, _⟩ := boost_effect (c := c) hinv hcur hholder
  cases hboost.symm.trans hboost'
  have hcur₁ := hboosted.frame.current
  have hidle₁ := hboosted.frame.idle
  have hrun₁ : ∃ ops, scheduler.Run s ops ⟨σ₁, s.yielding⟩ := by
    unfold boost at hboost
    split at hboost
    · exact ⟨[.vTaskPriorityInherit q.pxMutexHolder], .single ⟨validHandle_of_lt hholder, by
        simp [scheduler, SchedSys.exec, hboost]⟩⟩
    · cases hboost
      exact ⟨[], .refl⟩
  obtain ⟨ops, hrun₁⟩ := hrun₁
  have hblock : SchedSys.mayBlock ⟨σ₁, s.yielding⟩ = true := by
    simpa [SchedSys.mayBlock, SchedSys.mayCall, hcur₁, hcur, hrun, hidle₁] using hidle
  have hstep : scheduler.Step ⟨σ₁, s.yielding⟩
      (.vTaskPlaceOnEventList c.waitList c.xTicksToWait) ⟨σ, s.setYielding true⟩ := by
    refine ⟨Bool.and_eq_true_iff.mpr ⟨c.isEventList_waitList, hblock⟩, ?_⟩
    simp [scheduler, SchedSys.exec, hplace, SchedSys.setYielding, hcur₁]
  exact ⟨_, hrun₁.tail hstep⟩

end sections

/-! ### Every action is a schedule -/

namespace Schedules

variable {k k' : Kernel} {s : SchedSys} {t : TaskId}

theorem attempt (h : Schedules k s) (hinv : k.Inv) (hcur : k.sched.pxCurrentTCB = some t)
    (hrun : k.yielding t = false) {c : Call} {again : Bool}
    (hexec : k.attempt t c again = some k') :
    ∃ ops s', scheduler.Run s ops s' ∧ Schedules k' s' := by
  obtain ⟨q, hq, hexec⟩ := Option.bind_eq_some_iff.mp hexec
  split at hexec
  · obtain ⟨⟨b, item, q', σ⟩, htransfer, heq⟩ := Option.bind_eq_some_iff.mp hexec
    cases heq
    rw [← h.sched] at htransfer
    obtain ⟨ops, hops⟩ := Call.transfer_run (h.sched ▸ hinv.sched) (h.current hcur)
      (h.not_yielding hrun) (fun u hu => h.sched ▸ hinv.holder _ q u hq hu) htransfer
    exact ⟨ops, _, hops, rfl, h.mark hrun b⟩
  · split at hexec <;> cases hexec <;> exact ⟨[], s, .refl, h.sched, h.yielding⟩

theorem enlist (h : Schedules k s) (hinv : k.Inv) (hcur : k.sched.pxCurrentTCB = some t)
    (hrun : k.yielding t = false) {c : Call} (hstage : k.stage t = .block c)
    (hexec : k.enlist t c = some k') : ∃ ops s', scheduler.Run s ops s' ∧ Schedules k' s' := by
  obtain ⟨_, hidle, _⟩ := hinv.busy t c (by rw [hstage]; rfl)
  obtain ⟨q, hq, hexec⟩ := Option.bind_eq_some_iff.mp hexec
  obtain ⟨σ, henlist, heq⟩ := Option.bind_eq_some_iff.mp hexec
  cases heq
  rw [← h.sched] at henlist
  obtain ⟨ops, hops⟩ := Call.enlist_run (h.sched ▸ hinv.sched) (h.current hcur)
    (h.not_yielding hrun) (h.sched ▸ hidle) (fun u hu => h.sched ▸ hinv.holder _ q u hq hu)
    henlist
  exact ⟨ops, _, hops, rfl, h.setYielding hcur true⟩

theorem yield (h : Schedules k s) (hcur : k.sched.pxCurrentTCB = some t) :
    ∃ ops s', scheduler.Run s ops s' ∧ Schedules (k.yield t) s' := by
  refine ⟨[.taskYIELD], _, .single ⟨rfl, rfl⟩, ?_, h.setYielding hcur false⟩
  simp [h.sched, Kernel.yield]

theorem delay (h : Schedules k s) (hcur : k.sched.pxCurrentTCB = some t)
    (hrun : k.yielding t = false) (hidle : k.sched.xIdle ≠ some t) {n : TickType}
    (hexec : k.delay t n = some k') : ∃ ops s', scheduler.Run s ops s' ∧ Schedules k' s' := by
  unfold Kernel.delay at hexec
  split at hexec
  · rename_i hn
    obtain ⟨σ, hdelay, heq⟩ := Option.bind_eq_some_iff.mp hexec
    cases heq
    refine ⟨[.vTaskDelay n], ⟨σ, s.setYielding true⟩, .single ⟨?_, ?_⟩, rfl,
      h.setYielding hcur true⟩
    · exact Bool.and_eq_true_iff.mpr ⟨decide_eq_true hn, h.mayBlock hcur hrun hidle⟩
    · simp [scheduler, SchedSys.exec, h.sched, hdelay]
  · cases hexec
    exact ⟨[], s, .refl, h⟩

theorem resume (h : Schedules k s) (hinv : k.Inv) (hcur : k.sched.pxCurrentTCB = some t)
    (hexec : k.resume t = some k') : ∃ ops s', scheduler.Run s ops s' ∧ Schedules k' s' := by
  unfold Kernel.resume at hexec
  cases hrun : k.yielding t with
  | true =>
    rw [hrun, if_pos rfl] at hexec
    cases hexec
    exact h.yield hcur
  | false =>
    rw [hrun, if_neg (by simp)] at hexec
    cases hstage : k.stage t with
    | app => simp [hstage] at hexec
    | enter c | wait c =>
      rw [hstage] at hexec
      exact h.attempt hinv hcur hrun hexec
    | block c =>
      rw [hstage] at hexec
      exact h.enlist hinv hcur hrun hstage hexec
    | done c r item =>
      rw [hstage] at hexec
      cases hexec
      exact ⟨[], s, .refl, h.sched, h.yielding⟩

theorem tick (h : Schedules k s) (hexec : k.tick = some k') :
    ∃ ops s', scheduler.Run s ops s' ∧ Schedules k' s' := by
  obtain ⟨σ, htick, heq⟩ := Option.bind_eq_some_iff.mp hexec
  cases heq
  have htick : scheduler.Step s .xTaskIncrementTick ⟨σ, s.yielding⟩ :=
    ⟨rfl, by simp [scheduler, SchedSys.exec, h.sched, htick]⟩
  have hswitch : scheduler.Step ⟨σ, s.yielding⟩ .vTaskSwitchContext
      ⟨vTaskSwitchContext σ, s.yielding⟩ := ⟨rfl, rfl⟩
  exact ⟨_, _, (Machine.Run.single htick).tail hswitch, rfl, h.yielding⟩

theorem created (h : Schedules k s) (contents : List Item) (r : Option Queue) :
    Schedules (k.created contents (r, k.sched)) s := by
  cases r with
  | none => exact ⟨h.sched, h.yielding⟩
  | some q => exact ⟨h.sched, h.yielding⟩

/-- **One action** of the kernel is a schedule of the scheduler. -/
theorem step (h : Schedules k s) (hinv : k.Inv) {a : Action} (hadmits : k.admits a = true)
    (hexec : k.exec a = some k') : ∃ ops s', scheduler.Run s ops s' ∧ Schedules k' s' := by
  cases a with
  | xTaskCreate memory p =>
    obtain ⟨r, hcreate, rfl⟩ := Option.map_eq_some_iff.mp hexec
    exact ⟨[.xTaskCreate memory p], ⟨r.2, s.yielding⟩, .single ⟨rfl, by
      simp [scheduler, SchedSys.exec, h.sched, hcreate]⟩, rfl, h.yielding⟩
  | vTaskStartScheduler memory =>
    obtain ⟨σ, hstart, rfl⟩ := Option.map_eq_some_iff.mp hexec
    refine ⟨[.vTaskStartScheduler memory], ⟨σ, s.yielding⟩, .single ⟨?_, ?_⟩, rfl, h.yielding⟩
    · change s.admits _ = true
      rw [SchedSys.admits, h.sched]
      exact hadmits
    · simp [scheduler, SchedSys.exec, h.sched, hstart]
  | vTaskSetMutexInheritance b =>
    cases hexec
    refine ⟨[.vTaskSetMutexInheritance b], _, .single ⟨rfl, rfl⟩, ?_, h.yielding⟩
    simp [h.sched]
  | xQueueCreate pxQueue length size =>
    obtain ⟨r, hcreate, rfl⟩ := Option.map_eq_some_iff.mp hexec
    rcases xQueueCreate_spec hinv.noWaiters pxQueue length size with
      ⟨_, hspec⟩ | ⟨p, _, _, hspec⟩ <;> cases hcreate.symm.trans hspec <;>
      exact ⟨[], s, .refl, h.created _ _⟩
  | xQueueCreateCounting pxQueue max init =>
    obtain ⟨r, hcounting, rfl⟩ := Option.map_eq_some_iff.mp hexec
    obtain ⟨⟨q, σ⟩, hcreate, heq⟩ := Option.bind_eq_some_iff.mp hcounting
    cases heq
    rcases xQueueCreate_spec hinv.noWaiters pxQueue max 0 with
      ⟨_, hspec⟩ | ⟨p, _, _, hspec⟩ <;> cases hcreate.symm.trans hspec <;>
      exact ⟨[], s, .refl, h.created _ _⟩
  | xQueueCreateMutex pxQueue =>
    obtain ⟨r, hcreate, rfl⟩ := Option.map_eq_some_iff.mp hexec
    rcases xQueueCreateMutex_spec hinv.noWaiters pxQueue with
      ⟨_, hspec⟩ | ⟨p, _, hspec⟩ <;> cases hcreate.symm.trans hspec <;>
      exact ⟨[], s, .refl, h.created _ _⟩
  | vQueueDelete x =>
    cases hexec
    exact ⟨[], s, .refl, h.sched, h.yielding⟩
  | call c =>
    obtain ⟨t, _, rfl⟩ := Option.map_eq_some_iff.mp hexec
    exact ⟨[], s, .refl, h.sched, h.yielding⟩
  | vTaskDelay n =>
    obtain ⟨t, hcur, _, hrun, hidle⟩ := Kernel.running_of_inApp hadmits
    refine h.delay hcur hrun hidle (n := n) ?_
    simpa [Kernel.exec, hcur] using hexec
  | taskYIELD =>
    obtain ⟨t, hcur, rfl⟩ := Option.map_eq_some_iff.mp hexec
    exact h.yield hcur
  | resume =>
    obtain ⟨t, hcur, hresume⟩ := Option.bind_eq_some_iff.mp hexec
    exact h.resume hinv hcur hresume
  | tick => exact h.tick hexec

end Schedules

/-- **The kernel refines the scheduler.**  Every run of the kernel is, on the
    scheduler's part of the state, a schedule of the scheduler machine. -/
theorem kernel_refines_scheduler {k k' : Kernel} {s : SchedSys} {as : List Action}
    (h : kernel.Reach k) (hs : Schedules k s) (hrun : kernel.Run k as k') :
    ∃ ops s', scheduler.Run s ops s' ∧ Schedules k' s' := by
  refine Machine.Run.simulate ?_ h hs hrun
  rintro k a k' s hreach hs ⟨hadmits, hexec⟩
  exact hs.step (kernel_inv hreach) hadmits hexec

/-- From the boot: a reachable kernel state carries a reachable scheduler state. -/
theorem scheduler_reach_of_kernel {k : Kernel} (h : kernel.Reach k) :
    ∃ s, scheduler.Reach s ∧ Schedules k s := by
  obtain ⟨as, hrun⟩ := h.exists_run
  obtain ⟨ops, s, hops, hs⟩ := kernel_refines_scheduler Machine.Reach.init .boot hrun
  exact ⟨s, Machine.Reach.init.run hops, hs⟩

end FlintRTOS
