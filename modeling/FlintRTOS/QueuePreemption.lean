import FlintRTOS.PriorityInheritance
import FlintRTOS.WakeOrder

/-!
# Which task runs when a queue call returns

A call that succeeds at once wakes a waiter and yields when the waiter's priority
is above the caller's.  When the caller was of the highest priority before, so is
the task that runs afterwards, with one exception: a give of a mutex restores the
caller's base priority first, and the yield is decided on the waiter of this
mutex alone.  A third task that is ready above that base priority is not looked
at.
-/

namespace FlintRTOS

open ListId ItemId

/-- The running task has the highest priority among the ready tasks. -/
def Sched.RunsHighest (σ : Sched) : Prop :=
  ∃ t, σ.pxCurrentTCB = some t ∧ ∀ u, σ.Ready u → σ.priority u ≤ σ.priority t

theorem Sched.RunsHighest.le {σ : Sched} (h : σ.RunsHighest) {t u : TaskId}
    (hcur : σ.pxCurrentTCB = some t) (hu : σ.Ready u) : σ.priority u ≤ σ.priority t := by
  obtain ⟨t', hcur', hle⟩ := h
  cases hcur.symm.trans hcur'
  exact hle u hu

theorem runsHighest_switch {σ : Sched} (hinv : σ.Inv) {t : TaskId} (ht : σ.Ready t) :
    (vTaskSwitchContext σ).RunsHighest := by
  obtain ⟨u, hsel, _, _, hmax⟩ := hinv.switch_selects (hinv.lt_of_stateList ht) ht
  refine ⟨u, hsel, ?_⟩
  intro v hv
  have hv : σ.Ready v := hv
  exact hmax v (hinv.lt_of_stateList hv) hv

/-! ### The sections of a successful call -/

section sections

variable {c : Call} {q : Queue} {e : ListId} {σ σ₁ σ' : Sched} {y : Bool} {t : TaskId}

/-- A change of priority leaves the set of ready tasks alone. -/
theorem Reprioritised.ready_iff {h : TaskId} {p : Nat} (hinv : σ.Inv)
    (hre : Reprioritised h p σ σ₁) (u : TaskId) : σ₁.Ready u ↔ σ.Ready u := by
  refine ⟨?_, hre.ready u⟩
  intro hu
  by_contra hnot
  have hsame : σ₁.stateList u = σ.stateList u := by
    have hitem := hre.state u (by
      by_cases heq : u = h
      · exact Or.inr (heq ▸ hnot)
      · exact Or.inl heq)
    rw [Sched.stateList, hitem, Sched.stateList]
  rw [Sched.Ready, hsame] at hu
  -- a task that is not ready is in no ready list at all
  rcases (hinv.tasks u (hinv.lt_of_stateList hu)).state with hs | hs | hs
  · exact hnot hs
  · rw [hu] at hs
    cases hs
  · rw [hu] at hs
    cases hs

theorem EventWake.ready_or_head (hwake : EventWake e σ y σ') {u : TaskId} (hu : σ'.Ready u) :
    σ.Ready u ∨ (σ.lists.list e).items.head? = some (xEventListItem u) := by
  cases hwake with
  | empty => exact Or.inl hu
  | @head w cur lists _ hhead _ _ _ hitem =>
    by_cases heq : u = w
    · rw [heq]
      exact Or.inr hhead
    · refine Or.inl ?_
      simpa [Sched.Ready, Sched.stateList, Sched.priority, hitem, heq] using hu

/-- The yield is decided on the priority of the head. -/
theorem EventWake.yields_iff (hwake : EventWake e σ y σ') (hcur : σ.pxCurrentTCB = some t) :
    y = true ↔ ∃ w, (σ.lists.list e).items.head? = some (xEventListItem w) ∧
      σ.priority t < σ.priority w := by
  cases hwake with
  | empty hempty => simp [hempty]
  | @head w cur lists hcur' hhead =>
    cases hcur.symm.trans hcur'
    rw [decide_eq_true_iff]
    constructor
    · intro hlt
      exact ⟨w, hhead, hlt⟩
    · rintro ⟨w', hhead', hlt⟩
      cases hhead.symm.trans hhead'
      exact hlt

/-- Without a yield the caller goes on running, and the woken task is not above it. -/
theorem EventWake.runsHighest_iff (hwake : EventWake e σ false σ')
    (hcur : σ.pxCurrentTCB = some t) : σ'.RunsHighest ↔ σ.RunsHighest := by
  have hcur' : σ'.pxCurrentTCB = some t := by
    obtain ⟨top, lists, rfl⟩ := hwake.frame
    exact hcur
  have hprio : ∀ u, σ'.priority u = σ.priority u := fun u => (hwake.priorities u).1
  constructor
  · intro h
    refine ⟨t, hcur, ?_⟩
    intro u hu
    rw [← hprio u, ← hprio t]
    exact h.le hcur' (hwake.ready hu)
  · intro h
    refine ⟨t, hcur', ?_⟩
    intro u hu
    rw [hprio u, hprio t]
    rcases hwake.ready_or_head hu with hready | hhead
    · exact h.le hcur hready
    · by_contra hlt
      have htrue := (hwake.yields_iff hcur).mpr ⟨u, hhead, Nat.not_le.mp hlt⟩
      cases htrue

/-- The give takes a boost back from the task that runs, `t`. -/
def GivesBack (c : Call) (q : Queue) (t : TaskId) : Prop :=
  c.isSend = true ∧ q.ucIsMutex = true ∧ q.pxMutexHolder = some t

/-- The mutex part of a section keeps the caller highest unless it is the caller's
    own boost that is taken back, and a ready task is above its base priority. -/
theorem Released.runsHighest_iff (hinv : σ.Inv) (hreleased : Released c q σ σ₁)
    (hcur : σ.pxCurrentTCB = some t) (hhighest : σ.RunsHighest)
    (hbase : ∀ u < σ.uxCurrentNumberOfTasks, σ.basePriority u ≤ σ.priority u) :
    σ₁.RunsHighest ↔ ¬ (GivesBack c q t ∧
      ∃ u, u ≠ t ∧ σ.Ready u ∧ σ.basePriority t < σ.priority u) := by
  have hcur₁ : σ₁.pxCurrentTCB = some t := hreleased.frame.current.trans hcur
  cases hreleased with
  | kept hkept =>
    refine iff_of_true hhighest ?_
    rintro ⟨⟨hsend, hmutex, hholder⟩, u, _, hu, hlt⟩
    rw [← hkept hsend hmutex t hholder] at hlt
    exact Nat.not_lt.mpr (hhighest.le hcur hu) hlt
  | @restored h _ hsend hmutex hholder _ hre =>
    by_cases heq : h = t
    · subst heq
      have hprio : σ₁.priority h = σ.basePriority h := by rw [hre.priority, if_pos rfl]
      constructor
      · rintro hhighest₁ ⟨_, u, hne, hu, hlt⟩
        have hle := hhighest₁.le hcur₁ (hre.ready u hu)
        rw [hprio, hre.priority, if_neg hne] at hle
        exact Nat.not_lt.mpr hle hlt
      · intro hnone
        refine ⟨h, hcur₁, ?_⟩
        intro u hu
        by_cases hne : u = h
        · rw [hne]
        · rw [hprio, hre.priority, if_neg hne]
          by_contra hlt
          exact hnone ⟨⟨hsend, hmutex, hholder⟩, u, hne, (hre.ready_iff hinv u).mp hu,
            Nat.not_le.mp hlt⟩
    · have hother : ¬ GivesBack c q t := by
        rintro ⟨_, _, hholder'⟩
        exact heq (Option.some.inj (hholder.symm.trans hholder'))
      refine iff_of_true ?_ fun hgives => hother hgives.1
      refine ⟨t, hcur₁, ?_⟩
      intro u hu
      have hu := (hre.ready_iff hinv u).mp hu
      have hle := hhighest.le hcur hu
      rw [hre.priority t, if_neg (Ne.symm heq), hre.priority u]
      split
      · rename_i huh
        rw [← huh]
        exact Nat.le_trans (hbase u (hinv.lt_of_stateList hu)) hle
      · exact hle

variable {q' : Queue} {item : Item}

/-- A change of the holder's priority leaves the waiting lists alone. -/
theorem Call.settle_waiters (hinv : σ.Inv) (hinv₁ : σ₁.Inv) (hsettle : c.settle q σ = some (q', σ₁))
    (hevent : ∀ u, σ₁.eventList u = σ.eventList u) (he : e.isEventList = true) :
    (σ₁.lists.list e).items = (σ.lists.list e).items := by
  have hkept : WaitersKept 0 σ.lists σ₁.lists := by
    unfold settle at hsettle
    split at hsettle
    · split at hsettle
      · obtain ⟨⟨r, σ₂⟩, hdis, heq⟩ := Option.bind_eq_some_iff.mp hsettle
        cases heq
        exact WaitersKept.disinherit hdis
      · cases hsettle
        exact ListStore.Thins.refl _
    · cases hsettle
      exact ListStore.Thins.refl _
  -- the list can only have lost items, and it has lost none
  have hmem : ∀ i, i ∈ (σ₁.lists.list e).items ↔ i ∈ (σ.lists.list e).items := by
    intro i
    constructor
    · intro hi
      obtain ⟨u, rfl, _, hwait, _⟩ := hinv₁.mem_event he hi
      exact (σ.lists.linked _ _).mpr ((hevent u).symm.trans hwait)
    · intro hi
      obtain ⟨u, rfl, _, hwait, _⟩ := hinv.mem_event he hi
      exact (σ₁.lists.linked _ _).mpr ((hevent u).trans hwait)
  have hperm := (List.perm_ext_iff_of_nodup (σ₁.lists.list e).nodup (σ.lists.list e).nodup).mpr hmem
  exact (hkept.sublist e he).eq_of_length hperm.length_eq

/-- A whole section is a mutex part and a wake-up. -/
theorem Call.transfer_sections (hinv : σ.Inv) (hcur : σ.pxCurrentTCB = some t)
    (hholder : ∀ u, q.pxMutexHolder = some u → u < σ.uxCurrentNumberOfTasks)
    (hexec : c.transfer q σ = some (y, item, q', σ')) :
    ∃ q₁ σ₁, (GivesBack c q₁ t ↔ GivesBack c q t) ∧ Released c q₁ σ σ₁ ∧
      (σ₁.lists.list c.wakeList).items = (σ.lists.list c.wakeList).items ∧
      EventWake c.wakeList σ₁ y σ' ∧ σ'.Inv := by
  obtain ⟨⟨item', q₁⟩, hcopy, hrest⟩ := Option.bind_eq_some_iff.mp hexec
  obtain ⟨⟨q₂, σ₁⟩, hsettle, _⟩ := Option.bind_eq_some_iff.mp hrest
  obtain ⟨_, _, hmutex, hsame, _⟩ := copy_fields hcopy
  obtain ⟨σ₁', hsettle', hreleased, hinv₁⟩ :=
    settle_effect (c := c) hinv hcur (hsame ▸ hholder)
  cases hsettle.symm.trans hsettle'
  obtain ⟨y', σ'', hwoken, hinv', hwake⟩ := xTaskRemoveFromEventList_inv hinv₁
    c.isEventList_wakeList (hreleased.frame.current.trans hcur)
  have hresult : c.transfer q σ = some (y', item', c.settled t q₁, σ'') := by
    simp [transfer, hcopy, hsettle, hwoken]
  cases hexec.symm.trans hresult
  refine ⟨q₁, σ₁, ?_, hreleased, ?_, hwake, hinv'⟩
  · rw [GivesBack, GivesBack, hmutex, hsame]
  · exact settle_waiters hinv hinv₁ hsettle hreleased.frame.event c.isEventList_wakeList

theorem Call.transfer_current (hinv : σ.Inv) (hcur : σ.pxCurrentTCB = some t)
    (hholder : ∀ u, q.pxMutexHolder = some u → u < σ.uxCurrentNumberOfTasks)
    (hexec : c.transfer q σ = some (y, item, q', σ')) : σ'.pxCurrentTCB = σ.pxCurrentTCB := by
  obtain ⟨q₁, σ₁, _, hreleased, _, hwake, _⟩ := transfer_sections hinv hcur hholder hexec
  obtain ⟨top, lists, rfl⟩ := hwake.frame
  exact hreleased.frame.current

/-- Once the caller is back at its base priority, the yield compares the head with that. -/
theorem Released.yields_iff (hinv : σ.Inv) (hcur : σ.pxCurrentTCB = some t)
    (hready : σ.Ready t) (hreleased : Released c q σ σ₁)
    (hlist : (σ₁.lists.list c.wakeList).items = (σ.lists.list c.wakeList).items)
    (hwake : EventWake c.wakeList σ₁ y σ') (hback : GivesBack c q t) :
    y = true ↔ ∃ w, (σ.lists.list c.wakeList).items.head? = some (xEventListItem w) ∧
      σ.basePriority t < σ.priority w := by
  obtain ⟨hsend, hmutex, hholder⟩ := hback
  rw [hwake.yields_iff (hreleased.frame.current.trans hcur), hlist,
    (hreleased.priority t).2.2 hsend hmutex hholder]
  refine exists_congr fun w => and_congr_right fun hw => ?_
  -- a waiter is blocked, so it is not the caller, whose priority alone has changed
  have hwaiter : σ₁.priority w = σ.priority w := by
    refine hreleased.priority_of_ne ?_
    rw [hholder]
    intro heq
    cases heq
    obtain ⟨u, hu, _, _, hblocked⟩ :=
      hinv.mem_event c.isEventList_wakeList (List.mem_of_mem_head? hw)
    cases hu
    exact hblocked hready
  rw [hwaiter]

/-- No waiter above the base priority of `t` is woken, and another task that is
    above it is ready. -/
def PassesOver (σ : Sched) (e : ListId) (t : TaskId) : Prop :=
  (∀ w, (σ.lists.list e).items.head? = some (xEventListItem w) →
    σ.priority w ≤ σ.basePriority t) ∧
  ∃ u, u ≠ t ∧ σ.Ready u ∧ σ.basePriority t < σ.priority u

/-- A whole section, with the yield it decides on. -/
theorem Call.transfer_runsHighest_iff (hinv : σ.Inv) (hcur : σ.pxCurrentTCB = some t)
    (hready : σ.Ready t) (hhighest : σ.RunsHighest)
    (hbase : ∀ u < σ.uxCurrentNumberOfTasks, σ.basePriority u ≤ σ.priority u)
    (hholder : ∀ u, q.pxMutexHolder = some u → u < σ.uxCurrentNumberOfTasks)
    (hexec : c.transfer q σ = some (y, item, q', σ')) :
    (if y then vTaskSwitchContext σ' else σ').RunsHighest ↔
      ¬ (GivesBack c q t ∧ PassesOver σ c.wakeList t) := by
  obtain ⟨q₁, σ₁, hgives, hreleased, hlist, hwake, hinv'⟩ :=
    transfer_sections hinv hcur hholder hexec
  have hyields := fun hback =>
    hreleased.yields_iff hinv hcur hready hlist hwake (hgives.mpr hback)
  cases hy : y with
  | true =>
    refine iff_of_true (runsHighest_switch hinv' (hwake.ready (hreleased.frame.ready t hready))) ?_
    rintro ⟨hback, hhead, _⟩
    obtain ⟨w, hw, hlt⟩ := (hyields hback).mp hy
    exact Nat.not_lt.mpr (hhead w hw) hlt
  | false =>
    rw [hy] at hwake
    have hno : GivesBack c q t → ∀ w,
        (σ.lists.list c.wakeList).items.head? = some (xEventListItem w) →
          σ.priority w ≤ σ.basePriority t := by
      intro hback w hw
      by_contra hlt
      have htrue := (hyields hback).mpr ⟨w, hw, Nat.not_le.mp hlt⟩
      rw [hy] at htrue
      cases htrue
    rw [if_neg Bool.false_ne_true, hwake.runsHighest_iff (hreleased.frame.current.trans hcur),
      hreleased.runsHighest_iff hinv hcur hhighest hbase, hgives]
    refine not_congr ?_
    constructor
    · rintro ⟨hback, hothers⟩
      exact ⟨hback, hno hback, hothers⟩
    · rintro ⟨hback, _, hothers⟩
      exact ⟨hback, hothers⟩

end sections

/-! ### The call -/

section resume

variable {k : Kernel} {t : TaskId} {c : Call}

theorem exec_resume_yield (hcur : k.sched.pxCurrentTCB = some t) (hyield : k.yielding t = true) :
    k.exec .resume = some (k.yield t) := by
  simp [Kernel.exec, Kernel.resume, hcur, hyield]

theorem exec_resume (hcur : k.sched.pxCurrentTCB = some t) (hrun : k.yielding t = false) :
    k.exec .resume = match k.stage t with
      | .app => none
      | .enter c => k.attempt t c false
      | .block c => k.enlist t c
      | .wait c => k.attempt t c true
      | .done c r item => some ((k.setStage t .app).record (.ret t c r item)) := by
  have hresume : k.exec .resume = k.resume t := by rw [Kernel.exec, hcur, Option.bind_some]
  have hnot : ¬ k.yielding t = true := by simp [hrun]
  exact hresume.trans (if_neg hnot)

/-- A call from the application runs up to its first look at the queue. -/
theorem attempt_of_call {k₁ k₂ : Kernel} (hcur : k.sched.pxCurrentTCB = some t)
    (hcall : kernel.Step k (.call c) k₁) (hlook : kernel.Step k₁ .resume k₂) :
    k.yielding t = false ∧
      Kernel.attempt ((k.setStage t (.enter c)).record (.call t c)) t c false = some k₂ := by
  obtain ⟨t', hcur', _, hrun, _⟩ :=
    Kernel.running_of_inApp (Bool.and_eq_true_iff.mp hcall.1).1
  cases hcur.symm.trans hcur'
  have hk₁ : k₁ = (k.setStage t (.enter c)).record (.call t c) := by
    have hexec := hcall.2
    simp only [kernel, Kernel.exec, hcur, Option.map_some, Option.some.injEq] at hexec
    exact hexec.symm
  subst hk₁
  refine ⟨hrun, ?_⟩
  have hexec := hlook.2.symm.trans (exec_resume hcur hrun)
  simpa using hexec.symm

/-- A call from the application, its first look at the queue and the action after it:
    a transfer with the yield it decides on, a failure that changes nothing, or the way
    into the wait. -/
theorem call_steps_cases {k₁ k₂ k' : Kernel} (hinv : k.Inv)
    (hcur : k.sched.pxCurrentTCB = some t) (hcall : kernel.Step k (.call c) k₁)
    (hlook : kernel.Step k₁ .resume k₂) (hend : kernel.Step k₂ .resume k') :
    ∃ q, k.queue c.xQueue = some q ∧
      ((c.possible q = true ∧ ∃ y item q' σ', c.transfer q k.sched = some (y, item, q', σ') ∧
          k'.sched = if y then vTaskSwitchContext σ' else σ') ∨
        (c.possible q = false ∧ (k'.sched = k.sched ∨ k'.stage t = .wait c))) := by
  obtain ⟨hrun, hattempt⟩ := attempt_of_call hcur hcall hlook
  obtain ⟨q, hq, hattempt⟩ := Option.bind_eq_some_iff.mp hattempt
  have hq : k.queue c.xQueue = some q := hq
  have hend := hend.2
  refine ⟨q, hq, ?_⟩
  cases hpossible : c.possible q with
  | true =>
    rw [hpossible, if_pos rfl] at hattempt
    obtain ⟨⟨y, item, q', σ'⟩, htransfer, heq⟩ := Option.bind_eq_some_iff.mp hattempt
    have htransfer : c.transfer q k.sched = some (y, item, q', σ') := htransfer
    have hcur' := (Call.transfer_current hinv.sched hcur (fun u hu => hinv.holder _ q u hq hu)
      htransfer).trans hcur
    refine .inl ⟨rfl, y, item, q', σ', htransfer, ?_⟩
    cases heq
    cases y with
    | true =>
      cases hend.symm.trans (exec_resume_yield hcur' (by simp))
      rfl
    | false =>
      have hret := hend.symm.trans (exec_resume hcur' (by simp))
      simp only [Kernel.record_stage, Kernel.setStage_stage, Function.update_self,
        Option.some.injEq] at hret
      rw [hret]
      rfl
  | false =>
    refine .inr ⟨rfl, ?_⟩
    rw [hpossible, if_neg Bool.false_ne_true, Bool.false_or] at hattempt
    by_cases hwait : c.xTicksToWait = 0
    · rw [decide_eq_true hwait, if_pos rfl] at hattempt
      cases hattempt
      have hret := hend.symm.trans (exec_resume hcur hrun)
      simp only [Kernel.setStage_stage, Function.update_self, Option.some.injEq] at hret
      rw [hret]
      exact .inl rfl
    · rw [decide_eq_false hwait, if_neg Bool.false_ne_true] at hattempt
      cases hattempt
      have hblock := hend.symm.trans (exec_resume hcur hrun)
      simp only [Kernel.setStage_stage, Function.update_self] at hblock
      obtain ⟨_, _, hblock⟩ := Option.bind_eq_some_iff.mp hblock.symm
      obtain ⟨σ', _, heq⟩ := Option.bind_eq_some_iff.mp hblock
      cases heq
      exact .inr (by simp)

end resume

/-- The running task `t` gives a mutex that it holds, and is passed over. -/
def GivesUpPriority (k : Kernel) (t : TaskId) (c : Call) : Prop :=
  ∃ q, k.queue c.xQueue = some q ∧ c.possible q = true ∧ GivesBack c q t ∧
    PassesOver k.sched c.wakeList t

/-- **The highest task runs when a queue call returns**, except after a give that
    drops the caller below a third task.  The actions are the call, its first look
    at the queue, and the `taskYIELD` or, when there is none, the return. -/
theorem queue_call_runs_highest {k k₁ k₂ k' : Kernel} {t : TaskId} {c : Call}
    (h : kernel.Reach k) (hcur : k.sched.pxCurrentTCB = some t) (hhighest : k.sched.RunsHighest)
    (hcall : kernel.Step k (.call c) k₁) (hlook : kernel.Step k₁ .resume k₂)
    (hend : kernel.Step k₂ .resume k') (hnowait : k'.stage t ≠ .wait c) :
    k'.sched.RunsHighest ↔ ¬ GivesUpPriority k t c := by
  have hinv := kernel_inv h
  obtain ⟨hrun, _⟩ := attempt_of_call hcur hcall hlook
  obtain ⟨q, hq, ⟨hpossible, y, item, q', σ', htransfer, hsched⟩ | ⟨hpossible, hsched⟩⟩ :=
    call_steps_cases hinv hcur hcall hlook hend
  · rw [hsched, Call.transfer_runsHighest_iff hinv.sched hcur (hinv.ready hcur hrun) hhighest
      (boosts_accounted h).base_le (fun u hu => hinv.holder _ q u hq hu) htransfer]
    refine not_congr ?_
    constructor
    · rintro ⟨hback, hpasses⟩
      exact ⟨q, hq, hpossible, hback, hpasses⟩
    · rintro ⟨q'', hq'', _, hback, hpasses⟩
      cases hq.symm.trans hq''
      exact ⟨hback, hpasses⟩
  · rw [hsched.resolve_right hnowait]
    refine iff_of_true hhighest ?_
    rintro ⟨q'', hq'', hpossible', _⟩
    cases hq.symm.trans hq''
    rw [hpossible] at hpossible'
    cases hpossible'

/-! ### Runs with and without the exception -/

/-- `RunsHighest` by inspection of the tasks that exist. -/
def Sched.runsHighest (σ : Sched) : Bool :=
  σ.pxCurrentTCB.any fun t => (List.range σ.uxCurrentNumberOfTasks).all fun u =>
    decide (σ.stateList u = some (xReadyTasksLists (σ.priority u)) → σ.priority u ≤ σ.priority t)

theorem Sched.Inv.runsHighest_iff {σ : Sched} (h : σ.Inv) :
    σ.runsHighest = true ↔ σ.RunsHighest := by
  rw [Sched.runsHighest, Option.any_eq_true]
  refine exists_congr fun t => and_congr_right fun _ => ?_
  rw [List.all_eq_true]
  constructor
  · intro hall u hu
    exact of_decide_eq_true (hall u (List.mem_range.mpr (h.lt_of_stateList hu))) hu
  · intro hle u _
    exact decide_eq_true (hle u)

/-- The call of the running task, carried out to its yield or return. -/
def callReturns (k : Kernel) (c : Call) (p : Kernel → Bool) : Bool :=
  k.admits (.call c) && (k.exec (.call c)).any fun k₁ =>
    k₁.admits .resume && (k₁.exec .resume).any fun k₂ =>
      k₂.admits .resume && (k₂.exec .resume).any p

theorem exists_steps_of_callReturns {k : Kernel} {c : Call} {p : Kernel → Bool}
    (h : callReturns k c p = true) :
    ∃ k₁ k₂ k', kernel.Step k (.call c) k₁ ∧ kernel.Step k₁ .resume k₂ ∧
      kernel.Step k₂ .resume k' ∧ p k' = true := by
  obtain ⟨hcall, h⟩ := Bool.and_eq_true_iff.mp h
  obtain ⟨k₁, hk₁, h⟩ := Machine.exists_step (M := kernel) hcall h
  obtain ⟨hlook, h⟩ := Bool.and_eq_true_iff.mp h
  obtain ⟨k₂, hk₂, h⟩ := Machine.exists_step (M := kernel) hlook h
  obtain ⟨hend, h⟩ := Bool.and_eq_true_iff.mp h
  obtain ⟨k', hk', h⟩ := Machine.exists_step (M := kernel) hend h
  exact ⟨k₁, k₂, k', hk₁, hk₂, hk', h⟩

/-- Task 0, of priority 1, holds mutex 0; task 1, of priority 3, waits for it for
    `n` ticks and has lent its priority; task 2, of priority 2, is ready. -/
def thirdTaskSchedule (n : TickType) : List Action :=
  [.xTaskCreate ⟨true, true⟩ 1, .xTaskCreate ⟨true, true⟩ 3, .xTaskCreate ⟨true, true⟩ 2,
    .vTaskStartScheduler ⟨true, true⟩, .xQueueCreateMutex (some 0),
    .call (xSemaphoreTake 0 portMaxDelay), .resume, .resume,
    .tick, .call (xSemaphoreTake 0 n), .resume, .resume, .resume]

/-- The give wakes task 1, and task 1 runs. -/
theorem queue_call_runs_highest_woken :
    ∃ k k₁ k₂ k', kernel.Reach k ∧ k.sched.pxCurrentTCB = some 0 ∧ k.sched.RunsHighest ∧
      k.sched.priority 0 = 3 ∧ k.sched.basePriority 0 = 1 ∧
      kernel.Step k (.call (xSemaphoreGive 0)) k₁ ∧ kernel.Step k₁ .resume k₂ ∧
      kernel.Step k₂ .resume k' ∧ k'.sched.pxCurrentTCB = some 1 ∧ k'.sched.RunsHighest := by
  obtain ⟨k, hreach, hk⟩ := kernel.exists_reach (thirdTaskSchedule portMaxDelay)
    (fun k => decide (k.sched.pxCurrentTCB = some 0 ∧ k.sched.priority 0 = 3 ∧
      k.sched.basePriority 0 = 1 ∧ k.sched.priority 1 = 3 ∧
      (k.sched.lists.list (xTasksWaitingToReceive 0)).items.head? = some (xEventListItem 1) ∧
      k.sched.runsHighest = true) &&
      callReturns k (xSemaphoreGive 0) fun k' =>
        decide (k'.sched.pxCurrentTCB = some 1 ∧
          k'.stage 0 ≠ .wait (xSemaphoreGive 0))) (by decide +kernel)
  obtain ⟨hk, hreturns⟩ := Bool.and_eq_true_iff.mp hk
  obtain ⟨hcur, hprio, hbase, hprio₁, hhead, hhighest⟩ := of_decide_eq_true hk
  obtain ⟨k₁, k₂, k', hcall, hlook, hend, hk'⟩ := exists_steps_of_callReturns hreturns
  obtain ⟨hcur', hnowait⟩ := of_decide_eq_true hk'
  have hhighest := (kernel_inv hreach).sched.runsHighest_iff.mp hhighest
  refine ⟨k, k₁, k₂, k', hreach, hcur, hhighest, hprio, hbase, hcall, hlook, hend, hcur', ?_⟩
  refine (queue_call_runs_highest hreach hcur hhighest hcall hlook hend hnowait).mpr ?_
  rintro ⟨_, _, _, _, hle, _⟩
  have hle := hle 1 hhead
  rw [hprio₁, hbase] at hle
  exact absurd hle (by decide)

/-- Task 1 has given up waiting and sleeps: the give drops task 0 from priority 3
    to 1, wakes nobody, and task 0 goes on running although task 2 is ready. -/
theorem give_leaves_lower_running :
    ∃ k k₁ k₂ k', kernel.Reach k ∧ k.sched.pxCurrentTCB = some 0 ∧ k.sched.RunsHighest ∧
      kernel.Step k (.call (xSemaphoreGive 0)) k₁ ∧ kernel.Step k₁ .resume k₂ ∧
      kernel.Step k₂ .resume k' ∧ k'.stage 0 = .app ∧ k'.sched.pxCurrentTCB = some 0 ∧
      k'.sched.priority 0 = 1 ∧ k'.sched.Ready 2 ∧ k'.sched.priority 2 = 2 ∧
      ¬ k'.sched.RunsHighest := by
  obtain ⟨k, hreach, hk⟩ := kernel.exists_reach
    (thirdTaskSchedule 1 ++ [.tick, .resume, .resume, .vTaskDelay 5, .resume])
    (fun k => decide (k.sched.pxCurrentTCB = some 0 ∧ k.sched.runsHighest = true) &&
      callReturns k (xSemaphoreGive 0) fun k' =>
        decide (k'.stage 0 = .app ∧ k'.sched.pxCurrentTCB = some 0 ∧ k'.sched.priority 0 = 1 ∧
          k'.sched.stateList 2 = some (xReadyTasksLists (k'.sched.priority 2)) ∧
          k'.sched.priority 2 = 2)) (by decide +kernel)
  obtain ⟨hk, hreturns⟩ := Bool.and_eq_true_iff.mp hk
  obtain ⟨hcur, hhighest⟩ := of_decide_eq_true hk
  obtain ⟨k₁, k₂, k', hcall, hlook, hend, hk'⟩ := exists_steps_of_callReturns hreturns
  obtain ⟨hstage, hcur', hprio, hready, hprio₂⟩ := of_decide_eq_true hk'
  refine ⟨k, k₁, k₂, k', hreach, hcur, (kernel_inv hreach).sched.runsHighest_iff.mp hhighest,
    hcall, hlook, hend, hstage, hcur', hprio, hready, hprio₂, ?_⟩
  intro h
  have hle := h.le hcur' hready
  rw [hprio, hprio₂] at hle
  exact absurd hle (by decide)

end FlintRTOS
