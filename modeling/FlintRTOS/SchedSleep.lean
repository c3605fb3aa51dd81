import FlintRTOS.Scheduler
import Mathlib.Algebra.Group.Nat.Defs

/-!
# How long a task sleeps

A task that delays itself, or that waits on an event list with a timeout, is
filed in the delayed list under the wake time `xTickCount + n`, computed modulo
2³², and `xTaskIncrementTick` wakes it as soon as that value is not above the
tick count.  The comparison is a plain unsigned one.  When the sum wraps, the
stored wake time is small and the tick count is still large, so the first tick
already finds the task due.

`SleepsExactly` is the intended law over every schedule; `sleeps_exactly_iff` is
the exact condition under which the code has it.
-/

namespace FlintRTOS

open ListId ItemId

/-- The timeout of an operation that files the running task in the delayed list. -/
def SchedOp.sleep : SchedOp → Option TickType
  | .vTaskDelay n => some n
  | .vTaskPlaceOnEventList _ n => if n = portMaxDelay then none else some n
  | _ => none

/-- The number of tick interrupts in a schedule. -/
def ticks (as : List SchedOp) : Nat := as.count .xTaskIncrementTick

@[simp] theorem ticks_append (as : List SchedOp) (a : SchedOp) :
    ticks (as ++ [a]) = ticks as + if a = .xTaskIncrementTick then 1 else 0 := by
  simp only [ticks, List.count_append, List.count_singleton, beq_iff_eq]

/-- The action does not take `t` from the event list it waits on. -/
def NoEvent (t : TaskId) (s : SchedSys) (a : SchedOp) : Prop :=
  ∀ e, a = .xTaskRemoveFromEventList e →
    (s.sched.lists.list e).items.head? ≠ some (xEventListItem t)

/-- In every schedule from `s` in which `t` receives no event, `t` is in the
    delayed list while fewer than `n` ticks have come, and the `n`-th tick moves it
    to its ready list. -/
structure SleepsExactly (t : TaskId) (n : Nat) (s : SchedSys) : Prop where
  delayed : ∀ as s', (scheduler.restrict (NoEvent t)).Run s as s' → ticks as < n →
    xStateListItem t ∈ (s'.sched.lists.list xDelayedTaskList).items
  woken : ∀ as s' s'', (scheduler.restrict (NoEvent t)).Run s as s' → ticks as + 1 = n →
    scheduler.Step s' .xTaskIncrementTick s'' →
    xStateListItem t ∈ (s''.sched.lists.list
      (xReadyTasksLists (s''.sched.priority t))).items

/-! ### One step -/

variable {s s' : SchedSys} {t : TaskId} {n : TickType}

theorem SchedEffect.delayed_kept {a : SchedOp} (heffect : SchedEffect s a s') (hinv : s.Inv)
    (hevent : NoEvent t s a) (hnotick : a ≠ .xTaskIncrementTick)
    (hdelayed : s.sched.stateList t = some xDelayedTaskList) :
    s'.sched.lists.item (xStateListItem t) = s.sched.lists.item (xStateListItem t) ∧
      s'.sched.xTickCount = s.sched.xTickCount := by
  have hready : ¬ s.sched.Ready t := not_ready_of_blocked (Or.inl hdelayed)
  have hne : ∀ u, s.sched.Ready u → t ≠ u := by
    rintro u hu rfl
    exact hready hu
  cases heffect with
  | created hcreated | started hcreated =>
    exact ⟨hcreated.state t (hinv.sched.lt_of_stateList hdelayed), hcreated.tick⟩
  | delayed _ hrun hblocked | placed _ hrun hblocked =>
    obtain ⟨lists, rfl⟩ := hblocked.frame
    exact ⟨(hblocked.other t (hne _ hrun)).1, rfl⟩
  | @woken e y σ _ hwake =>
    cases hwake with
    | empty => exact ⟨rfl, rfl⟩
    | @head w cur lists _ hhead _ _ _ hitem =>
      have hw : t ≠ w := by
        rintro rfl
        exact hevent e rfl hhead
      exact ⟨by simp [hitem, hw], rfl⟩
  | inherited hchange | disinherited hchange =>
    rcases hchange with rfl | ⟨u, p, hre⟩
    · exact ⟨rfl, rfl⟩
    · obtain ⟨top, lists, heq⟩ := hre.frame
      refine ⟨hre.state t ?_, by rw [heq]; rfl⟩
      by_cases hu : t = u
      · exact Or.inr (hu ▸ hready)
      · exact Or.inl hu
  | inheritance => exact ⟨rfl, rfl⟩
  | ticked => exact absurd rfl hnotick
  | switched | yielded => exact ⟨by simp, rfl⟩

/-- A tick keeps a delayed task that is not due, and wakes one that is. -/
theorem tick_delayed (hreach : scheduler.Reach s) (hstep : scheduler.Step s .xTaskIncrementTick s')
    (hdelayed : s.sched.stateList t = some xDelayedTaskList) :
    s'.sched.xTickCount = s.sched.xTickCount + 1 ∧
    (s.sched.xTickCount + 1 < s.sched.wakeTime t →
      s'.sched.lists.item (xStateListItem t) = s.sched.lists.item (xStateListItem t)) ∧
    (s.sched.wakeTime t ≤ s.sched.xTickCount + 1 → s'.sched.Ready t) := by
  cases scheduler_effect hreach hstep with
  | ticked hwoke =>
    refine ⟨?_, ?_, ?_⟩
    · obtain ⟨top, lists, rfl⟩ := hwoke.frame
      rfl
    · intro hlate
      refine (hwoke.kept t ?_).1
      rintro ⟨_, hdue⟩
      exact UInt32.not_lt.mpr hdue hlate
    · intro hdue
      exact (hwoke.woken t ⟨hdelayed, hdue⟩).1

/-! ### A whole run -/

/-- As long as no tick of the schedule reaches the wake time, the task stays
    filed under it, and the tick count is the old one plus the ticks. -/
theorem delayed_of_run {as : List SchedOp} (hreach : scheduler.Reach s)
    (hdelayed : s.sched.stateList t = some xDelayedTaskList)
    (hrun : (scheduler.restrict (NoEvent t)).Run s as s') (hlate : ∀ k, 0 < k → k ≤ ticks as →
      s.sched.xTickCount + UInt32.ofNat k < s.sched.wakeTime t) :
    scheduler.Reach s' ∧
      s'.sched.lists.item (xStateListItem t) = s.sched.lists.item (xStateListItem t) ∧
      s'.sched.xTickCount = s.sched.xTickCount + UInt32.ofNat (ticks as) := by
  induction hrun with
  | refl =>
    refine ⟨hreach, rfl, ?_⟩
    simp [ticks]
  | @tail as s₁ s₂ a _ hst ih =>
    obtain ⟨hstep, hevent⟩ := Machine.restrict_step.mp hst
    obtain ⟨hreach₁, hitem, hcount⟩ := ih fun k hk hle => hlate k hk (by
      rw [ticks_append]
      omega)
    have hdelayed₁ : s₁.sched.stateList t = some xDelayedTaskList := by
      rw [Sched.stateList, hitem]
      exact hdelayed
    refine ⟨hreach₁.step hstep, ?_⟩
    by_cases ha : a = .xTaskIncrementTick
    · subst ha
      obtain ⟨hcount₂, hkept, _⟩ := tick_delayed hreach₁ hstep hdelayed₁
      have hnext : s₁.sched.xTickCount + 1 =
          s.sched.xTickCount + UInt32.ofNat (ticks as + 1) := by
        rw [hcount, UInt32.ofNat_add, ← UInt32.add_assoc]
        rfl
      have hwake : s₁.sched.wakeTime t = s.sched.wakeTime t := by
        rw [Sched.wakeTime, hitem]
        rfl
      have hnotdue := hlate (ticks as + 1) (Nat.succ_pos _) (by simp)
      rw [← hnext, ← hwake] at hnotdue
      refine ⟨(hkept hnotdue).trans hitem, ?_⟩
      simpa [hcount₂] using hnext
    · obtain ⟨hkept, hcount₂⟩ :=
        (scheduler_effect hreach₁ hstep).delayed_kept (scheduler_inv hreach₁) hevent ha hdelayed₁
      refine ⟨hkept.trans hitem, ?_⟩
      simpa [ha, hcount] using hcount₂

/-! ### The arithmetic of wake times -/

/-- The wake time does not wrap, or the tick count wraps with it. -/
def NoWrap (xTickCount n : TickType) : Prop :=
  xTickCount.toNat + n.toNat < 2 ^ 32 ∨ xTickCount.toNat = 2 ^ 32 - 1

instance (c n : TickType) : Decidable (NoWrap c n) :=
  inferInstanceAs (Decidable (_ ∨ _))

theorem NoWrap.late {c : TickType} (h : NoWrap c n) {k : Nat} (hk : 0 < k) (hlt : k < n.toNat) :
    c + UInt32.ofNat k < c + n := by
  have hn := n.toNat_lt
  have hc := c.toNat_lt
  rw [UInt32.lt_iff_toNat_lt, UInt32.toNat_add, UInt32.toNat_add, UInt32.toNat_ofNat']
  rcases h with h | h
  · omega
  · omega

/-- A wrapped wake time is below the next tick, and the timeout was at least two. -/
theorem due_of_wrap {c : TickType} (h : ¬ NoWrap c n) : c + n ≤ c + 1 ∧ 1 < n.toNat := by
  have hn := n.toNat_lt
  have hc := c.toNat_lt
  simp only [NoWrap, not_or] at h
  rw [UInt32.le_iff_toNat_le, UInt32.toNat_add, UInt32.toNat_add]
  have hone : (1 : UInt32).toNat = 1 := rfl
  omega

/-! ### The length of a sleep -/

/-- A sleeping operation files the running task under `xTickCount + n`. -/
theorem sleep_files {a : SchedOp} (hreach : scheduler.Reach s)
    (hcur : s.sched.pxCurrentTCB = some t) (hsleep : a.sleep = some n)
    (hstep : scheduler.Step s a s') :
    s'.sched.stateList t = some xDelayedTaskList ∧
      s'.sched.wakeTime t = s.sched.xTickCount + n ∧
      s'.sched.xTickCount = s.sched.xTickCount := by
  have hfiled : ∀ {u : TaskId} {e : Option ListId} {m : TickType} {σ : Sched},
      s.sched.pxCurrentTCB = some u → Blocked u e m s.sched σ →
      e = none ∨ m ≠ portMaxDelay →
      σ.stateList t = some xDelayedTaskList ∧ σ.wakeTime t = s.sched.xTickCount + m ∧
        σ.xTickCount = s.sched.xTickCount := by
    intro u e m σ hu hblocked hor
    cases hcur.symm.trans hu
    obtain ⟨hstate, hwake⟩ := hblocked.delayed hor
    refine ⟨hstate, hwake, ?_⟩
    obtain ⟨lists, rfl⟩ := hblocked.frame
    rfl
  cases scheduler_effect hreach hstep with
  | delayed hu _ hblocked =>
    cases hsleep
    exact hfiled hu hblocked (Or.inl rfl)
  | @placed e m _ _ hu _ hblocked =>
    by_cases hmax : m = portMaxDelay
    · simp [SchedOp.sleep, hmax] at hsleep
    · simp only [SchedOp.sleep, hmax, if_false, Option.some.injEq] at hsleep
      subst hsleep
      exact hfiled hu hblocked (Or.inr hmax)
  | _ => cases hsleep

/-- **The length of a sleep.**  In a reachable state the task that delays itself,
    or waits on an event list with a timeout, for `n` ticks sleeps exactly `n`
    ticks if and only if its wake time does not wrap or the tick count is at its
    maximum. -/
theorem sleeps_exactly_iff {s s' : SchedSys} {a : SchedOp} {n : TickType} {t : TaskId}
    (hreach : scheduler.Reach s) (hcur : s.sched.pxCurrentTCB = some t)
    (hsleep : a.sleep = some n) (hstep : scheduler.Step s a s') :
    SleepsExactly t n.toNat s' ↔ NoWrap s.sched.xTickCount n := by
  obtain ⟨hdelayed, hwake, hcount⟩ := sleep_files hreach hcur hsleep hstep
  have hreach' := hreach.step hstep
  constructor
  · -- a wrapped wake time is due at the first tick, which always comes
    intro hexact
    by_contra hwrap
    obtain ⟨hdue, hone⟩ := due_of_wrap hwrap
    obtain ⟨s₁, hexec⟩ := scheduler_safe hreach' .xTaskIncrementTick rfl
    have htick : scheduler.Step s' .xTaskIncrementTick s₁ := ⟨rfl, hexec⟩
    have hready := (tick_delayed hreach' htick hdelayed).2.2 (by rw [hwake, hcount]; exact hdue)
    have hrun : (scheduler.restrict (NoEvent t)).Run s' [.xTaskIncrementTick] s₁ :=
      Machine.Run.single (Machine.restrict_step.mpr ⟨htick, by simp [NoEvent]⟩)
    have hmem := hexact.delayed _ _ hrun (by simpa [ticks] using hone)
    exact not_ready_of_blocked (Or.inl ((s₁.sched.lists.linked _ _).mp hmem)) hready
  · intro hnowrap
    have hrun : ∀ as s₁, (scheduler.restrict (NoEvent t)).Run s' as s₁ → ticks as < n.toNat →
        scheduler.Reach s₁ ∧ s₁.sched.stateList t = some xDelayedTaskList ∧
          s₁.sched.wakeTime t = s.sched.xTickCount + n ∧
          s₁.sched.xTickCount = s.sched.xTickCount + UInt32.ofNat (ticks as) := by
      intro as s₁ hrun hlt
      obtain ⟨hreach₁, hitem, hcount₁⟩ := delayed_of_run hreach' hdelayed hrun (by
        intro k hk hle
        rw [hwake, hcount]
        exact hnowrap.late hk (Nat.lt_of_le_of_lt hle hlt))
      refine ⟨hreach₁, ?_, ?_, by rw [hcount₁, hcount]⟩
      · rw [Sched.stateList, hitem]
        exact hdelayed
      · rw [Sched.wakeTime, hitem]
        exact hwake
    constructor
    · intro as s₁ h hlt
      exact (s₁.sched.lists.linked _ _).mpr (hrun as s₁ h hlt).2.1
    · intro as s₁ s₂ h hlast htick
      obtain ⟨hreach₁, hdelayed₁, hwake₁, hcount₁⟩ := hrun as s₁ h (by omega)
      apply mem_ready_list
      refine (tick_delayed hreach₁ htick hdelayed₁).2.2 ?_
      -- the n-th tick makes the count equal to the wake time
      have hnth : s₁.sched.xTickCount + 1 = s.sched.xTickCount + n := by
        have hn : n = UInt32.ofNat (ticks as) + 1 := by
          rw [← UInt32.ofNat_toNat (x := n), ← hlast, UInt32.ofNat_add]
          rfl
        rw [hcount₁, hn, UInt32.add_assoc]
      rw [hwake₁, hnth]
      exact UInt32.le_refl _

/-- One task and the idle task, one tick after the start. -/
def oneTickSchedule : List SchedOp :=
  [.xTaskCreate ⟨true, true⟩ 1, .vTaskStartScheduler ⟨true, true⟩, .vTaskSwitchContext,
    .xTaskIncrementTick]

theorem sleeps_exactly_five : ∃ s s', scheduler.Reach s ∧ s.sched.xTickCount = 1 ∧
    scheduler.Step s (.vTaskDelay 5) s' ∧ SleepsExactly 0 5 s' := by
  obtain ⟨s, hreach, hs⟩ := scheduler.exists_reach oneTickSchedule
    (fun s => s.sched.xTickCount = 1 ∧ s.sched.pxCurrentTCB = some 0 ∧
      s.admits (.vTaskDelay 5)) (by decide)
  obtain ⟨htick, hcur, hadmits⟩ := of_decide_eq_true hs
  obtain ⟨s', hexec⟩ := scheduler_safe hreach (.vTaskDelay 5) hadmits
  have hstep : scheduler.Step s (.vTaskDelay 5) s' := ⟨hadmits, hexec⟩
  refine ⟨s, s', hreach, htick, hstep, ?_⟩
  refine (sleeps_exactly_iff hreach hcur rfl hstep).mpr ?_
  rw [htick]
  decide

/-- A delay of `0xFFFFFFFF` ticks called at tick 1 wraps to the wake time 0: the
    very next tick makes the task ready. -/
theorem sleep_wraps : ∃ s s' s'', scheduler.Reach s ∧ s.sched.xTickCount = 1 ∧
    s.sched.pxCurrentTCB = some 0 ∧ scheduler.Step s (.vTaskDelay 0xFFFFFFFF) s' ∧
    s'.sched.wakeTime 0 = 0 ∧ scheduler.Step s' .xTaskIncrementTick s'' ∧
    s''.sched.stateList 0 = some (xReadyTasksLists 1) ∧
    ¬ SleepsExactly 0 0xFFFFFFFF s' := by
  obtain ⟨s, hreach, hs⟩ := scheduler.exists_reach oneTickSchedule
    (fun s => s.sched.xTickCount = 1 ∧ s.sched.pxCurrentTCB = some 0 ∧
      s.admits (.vTaskDelay 0xFFFFFFFF) ∧ (s.exec (.vTaskDelay 0xFFFFFFFF)).any fun s' =>
        s'.sched.wakeTime 0 = 0 ∧ (s'.exec .xTaskIncrementTick).any fun s'' =>
          s''.sched.stateList 0 = some (xReadyTasksLists 1)) (by decide)
  obtain ⟨htick, hcur, hadmits, hs'⟩ := of_decide_eq_true hs
  obtain ⟨s', hstep, hs'⟩ := scheduler.exists_step hadmits hs'
  obtain ⟨hwake, hs''⟩ := of_decide_eq_true hs'
  obtain ⟨s'', hstep', hs''⟩ :=
    scheduler.exists_step (show scheduler.guard s' .xTaskIncrementTick from rfl) hs''
  have hready := of_decide_eq_true hs''
  refine ⟨s, s', s'', hreach, htick, hcur, hstep, hwake, hstep', hready, ?_⟩
  intro hexact
  have hrun : (scheduler.restrict (NoEvent 0)).Run s' [.xTaskIncrementTick] s'' :=
    Machine.Run.single (Machine.restrict_step.mpr ⟨hstep', by simp [NoEvent]⟩)
  have hmem := hexact.delayed _ _ hrun (by decide)
  have hdelayed : s''.sched.stateList 0 = some xDelayedTaskList :=
    (s''.sched.lists.linked _ _).mp hmem
  rw [hready] at hdelayed
  cases hdelayed

end FlintRTOS
