import FlintRTOS.RingWait
import FlintRTOS.Scheduler

/-!
# Bounded waiting

The tasks of one priority take turns, but they also block and are woken, and a woken task is
linked at the cursor of the ready list.  How long can a ready task wait for its turn while no
task of a higher priority is ready?  Every function of `tasks.c` touches the ready list by
unlinking or linking other tasks, or selects on it, so the bound of the ring is one for
schedules.
-/

namespace FlintRTOS

open ListId ItemId CursorRing

/-- No ready task has a higher priority. -/
def Highest (σ : Sched) (t : TaskId) : Prop :=
  σ.Ready t ∧ ∀ u < σ.uxCurrentNumberOfTasks, σ.Ready u → σ.priority u ≤ σ.priority t

instance (σ : Sched) (t : TaskId) : Decidable (σ.Ready t) := inferInstanceAs (Decidable (_ = _))

instance (σ : Sched) (t : TaskId) : Decidable (Highest σ t) :=
  inferInstanceAs (Decidable (_ ∧ _))

/-! ### What the functions do to the ready list -/

/-- The task stays in the ready list of this priority, and does not wait longer. -/
def Others (t : TaskId) (p : Nat) (lists lists' : Lists) : Prop :=
  ∀ m, xStateListItem t ∈ (lists.list (xReadyTasksLists p)).items →
    xStateListItem t ∈ (lists'.list (xReadyTasksLists p)).items ∧
      (lists'.list (xReadyTasksLists p)).wait m (xStateListItem t) ≤
        (lists.list (xReadyTasksLists p)).wait m (xStateListItem t)

section Others

variable {t u : TaskId} {p : Nat} {lists lists' lists'' : Lists} {s s' : Sched}

theorem Others.of_list
    (h : lists'.list (xReadyTasksLists p) = lists.list (xReadyTasksLists p)) :
    Others t p lists lists' := by
  intro m hmem
  rw [h]
  exact ⟨hmem, Nat.le_refl _⟩

theorem Others.trans (h : Others t p lists lists') (h' : Others t p lists' lists'') :
    Others t p lists lists'' := by
  intro m hmem
  obtain ⟨hmem', hle⟩ := h m hmem
  obtain ⟨hmem'', hle'⟩ := h' m hmem'
  exact ⟨hmem'', Nat.le_trans hle' hle⟩

theorem Others.of_around (h : (lists.list (xReadyTasksLists p)).Around (xStateListItem t)
    (lists'.list (xReadyTasksLists p))) : Others t p lists lists' :=
  fun _ hmem => h.wait_le hmem

variable {i : ItemId} {q : Nat} {l e : ListId} {n : TickType} {r : BaseType}
  {holder : Option TaskId}

theorem Others.vListInsertEnd (hne : i ≠ xStateListItem t)
    (h : lists.vListInsertEnd l i = some lists') : Others t p lists lists' := by
  unfold ListStore.vListInsertEnd at h
  split at h
  · next hfree =>
    cases h
    by_cases hl : xReadyTasksLists p = l
    · subst hl
      have hi : i ∉ (lists.list (xReadyTasksLists p)).items := by
        rw [lists.linked, hfree]
        simp
      apply Others.of_around
      simpa [ListStore.link] using RingList.Around.insert i hi hne
    · exact Others.of_list (by simp [ListStore.link, Function.update_of_ne hl])
  · cases h

theorem Others.uxListRemove (hne : i ≠ xStateListItem t) (h : lists.uxListRemove i = some lists') :
    Others t p lists lists' := by
  unfold ListStore.uxListRemove at h
  split at h
  · cases h
  · next l hin =>
    cases h
    by_cases hl : xReadyTasksLists p = l
    · subst hl
      apply Others.of_around
      simpa [ListStore.unlink] using RingList.Around.remove i hne
    · exact Others.of_list (by simp [ListStore.unlink, Function.update_of_ne hl])

theorem Others.vListInsert (hl : xReadyTasksLists p ≠ l) (h : lists.vListInsert l i = some lists') :
    Others t p lists lists' := by
  unfold ListStore.vListInsert at h
  split at h
  · split at h <;> cases h <;>
      exact Others.of_list (by simp [ListStore.link, Function.update_of_ne hl])
  · cases h

theorem Others.setItem (lists : Lists) (i : ItemId) (value : TickType) (owner : Option TaskId) :
    Others t p lists (lists.setItem i value owner) := Others.of_list rfl

theorem Others.vListInitialiseItem (h : lists.vListInitialiseItem i = some lists') :
    Others t p lists lists' := by
  unfold ListStore.vListInitialiseItem at h
  split at h
  · cases h
    exact Others.of_list rfl
  · cases h

theorem state_ne (hne : u ≠ t) : xStateListItem u ≠ xStateListItem t :=
  fun h => hne (ItemId.xStateListItem.inj h)

theorem event_ne : xEventListItem u ≠ xStateListItem t := by
  intro h
  cases h

theorem ready_ne_delayed : xReadyTasksLists p ≠ xDelayedTaskList := by
  intro h
  cases h

theorem Others.add (hne : u ≠ t) (h : prvAddTaskToReadyList u s = some s') :
    Others t p s.lists s'.lists := by
  obtain ⟨lists, hinsert, heq⟩ := Option.bind_eq_some_iff.mp h
  cases heq
  apply (Others.setItem _ _ _ _).trans
  apply (Others.setItem _ _ _ _).trans
  exact Others.vListInsertEnd (state_ne hne) hinsert

theorem Others.reprioritise (hne : u ≠ t) (h : prvReprioritise u q s = some s') :
    Others t p s.lists s'.lists := by
  unfold prvReprioritise at h
  split at h
  · obtain ⟨lists, hremove, hadd⟩ := Option.bind_eq_some_iff.mp h
    exact (Others.uxListRemove (state_ne hne) hremove).trans (Others.add hne hadd)
  · cases h
    exact Others.of_list rfl

theorem Others.removeEventItem (h : prvRemoveEventItem u lists = some lists') :
    Others t p lists lists' := by
  unfold prvRemoveEventItem at h
  split at h
  · exact Others.uxListRemove event_ne h
  · cases h
    exact Others.of_list rfl

theorem Others.wakeDue (howner : (s.lists.item i).pvOwner = some u) (hne : u ≠ t)
    (h : prvWakeDue i s = some s') : Others t p s.lists s'.lists := by
  simp only [prvWakeDue, ListStore.listGetListItemOwner, howner, Option.bind_eq_bind,
    Option.bind_some] at h
  obtain ⟨lists₁, hremove, h⟩ := Option.bind_eq_some_iff.mp h
  obtain ⟨lists₂, hevent, hadd⟩ := Option.bind_eq_some_iff.mp h
  apply (Others.uxListRemove (state_ne hne) hremove).trans
  exact (Others.removeEventItem hevent).trans (Others.add hne hadd)

/-- A task in a ready list is not among those the tick wakes. -/
theorem Others.wakeLoop (fuel : Nat) : ∀ {s s' : Sched}, s.Inv → s.Ready t →
    prvWakeLoop fuel s = some s' → Others t p s.lists s'.lists := by
  induction fuel with
  | zero =>
    intro s s' _ _ h
    cases h
    exact Others.of_list rfl
  | succ fuel ih =>
    intro s s' hinv hready h
    unfold prvWakeLoop at h
    split at h
    · cases h
      exact Others.of_list rfl
    · next i hhead =>
      split at h
      · cases h
        exact Others.of_list rfl
      · obtain ⟨s₁, hwake, h⟩ := Option.bind_eq_some_iff.mp h
        obtain ⟨w, rfl, hw, hstate⟩ := hinv.mem_delayed (List.mem_of_mem_head? hhead)
        have hne : w ≠ t := by
          rintro rfl
          exact not_ready_of_blocked (Or.inl hstate) hready
        have howner := (hinv.tasks w hw).owner_state
        obtain ⟨lists, hwake', hitem, hord⟩ := prvWakeDue_spec howner hstate
        cases hwake.symm.trans hwake'
        apply (Others.wakeDue howner hne hwake).trans
        apply ih (hinv.wake hw hitem (hord hinv.ordered)) _ h
        simpa [Sched.Ready, Sched.stateList, Sched.priority, hitem, Ne.symm hne] using hready

theorem Others.delay (hcur : s.pxCurrentTCB = some u) (hne : u ≠ t)
    (h : vTaskDelaySection n s = some s') : Others t p s.lists s'.lists := by
  rw [vTaskDelaySection, hcur, Option.bind_eq_bind, Option.bind_some] at h
  obtain ⟨lists₁, hremove, h⟩ := Option.bind_eq_some_iff.mp h
  obtain ⟨lists₂, hinsert, heq⟩ := Option.bind_eq_some_iff.mp h
  cases heq
  apply (Others.uxListRemove (state_ne hne) hremove).trans
  apply (Others.setItem _ _ _ _).trans
  exact Others.vListInsert ready_ne_delayed hinsert

theorem Others.place (he : e.isEventList = true) (hcur : s.pxCurrentTCB = some u) (hne : u ≠ t)
    (h : vTaskPlaceOnEventList e n s = some s') : Others t p s.lists s'.lists := by
  have hevent : xReadyTasksLists p ≠ e := by
    rintro rfl
    cases he
  rw [vTaskPlaceOnEventList, hcur, Option.bind_eq_bind, Option.bind_some] at h
  obtain ⟨lists₁, hremove, h⟩ := Option.bind_eq_some_iff.mp h
  obtain ⟨lists₂, hinsert, h⟩ := Option.bind_eq_some_iff.mp h
  apply (Others.uxListRemove (state_ne hne) hremove).trans
  apply (Others.vListInsert hevent hinsert).trans
  split at h
  · obtain ⟨lists₃, hlink, heq⟩ := Option.bind_eq_some_iff.mp h
    cases heq
    exact Others.vListInsertEnd (state_ne hne) hlink
  · obtain ⟨lists₃, hlink, heq⟩ := Option.bind_eq_some_iff.mp h
    cases heq
    apply (Others.setItem _ _ _ _).trans
    exact Others.vListInsert ready_ne_delayed hlink

theorem Others.create {memory : TaskMemory} (hinv : s.Inv) (ht : t < s.uxCurrentNumberOfTasks)
    (h : xTaskCreate memory q s = some (r, s')) : Others t p s.lists s'.lists := by
  have hinit : s.xListsInitialised = true := by
    cases hb : s.xListsInitialised with
    | true => rfl
    | false =>
      rw [hinv.initialised hb] at ht
      exact absurd ht (Nat.not_lt_zero t)
  rw [xTaskCreate, prvEnsureTaskLists, if_pos hinit, Option.bind_eq_bind, Option.bind_some] at h
  split at h
  · obtain ⟨s₁, hcreate, heq⟩ := Option.bind_eq_some_iff.mp h
    cases heq
    obtain ⟨lists₁, hstate, hcreate⟩ := Option.bind_eq_some_iff.mp hcreate
    obtain ⟨lists₂, hevent, hadd⟩ := Option.bind_eq_some_iff.mp hcreate
    apply (Others.vListInitialiseItem hstate).trans
    apply (Others.vListInitialiseItem hevent).trans
    apply (Others.setItem _ _ _ _).trans
    apply (Others.setItem _ _ _ _).trans
    apply (Others.setItem _ _ _ _).trans
    exact Others.add (Nat.ne_of_gt ht) hadd
  · cases h
    exact Others.of_list rfl

theorem Others.wake {y : Bool} (hinv : s.Inv) (he : e.isEventList = true) (hready : s.Ready t)
    (h : xTaskRemoveFromEventList e s = some (y, s')) : Others t p s.lists s'.lists := by
  unfold xTaskRemoveFromEventList at h
  split at h
  · cases h
    exact Others.of_list rfl
  · obtain ⟨i, hhead, h⟩ := Option.bind_eq_some_iff.mp h
    obtain ⟨w, howner, h⟩ := Option.bind_eq_some_iff.mp h
    obtain ⟨lists₁, hevent, h⟩ := Option.bind_eq_some_iff.mp h
    obtain ⟨lists₂, hstate, h⟩ := Option.bind_eq_some_iff.mp h
    obtain ⟨s₁, hadd, h⟩ := Option.bind_eq_some_iff.mp h
    obtain ⟨cur, -, heq⟩ := Option.bind_eq_some_iff.mp h
    cases heq
    -- a waiter is not ready
    obtain ⟨w', rfl, hlt, -, hwaits⟩ := hinv.mem_event he (List.mem_of_mem_head? hhead)
    cases howner.symm.trans (hinv.tasks w' hlt).owner_event
    have hne : w ≠ t := by
      rintro rfl
      exact hwaits hready
    apply (Others.uxListRemove event_ne hevent).trans
    exact (Others.uxListRemove (state_ne hne) hstate).trans (Others.add hne hadd)

theorem Others.reprioritise_of_ne (hinv : s.Inv) (hlt : u < s.uxCurrentNumberOfTasks)
    (hq : q < configMaxPriorities) (hne : q ≠ s.priority u) (hkeep : s'.priority t = s.priority t)
    (h : prvReprioritise u q s = some s') : Others t p s.lists s'.lists := by
  refine Others.reprioritise ?_ h
  rintro rfl
  obtain ⟨s₁, hexec, hre⟩ := prvReprioritise_inv hinv hlt hq
  cases h.symm.trans hexec
  rw [hre.priority, if_pos rfl] at hkeep
  exact hne hkeep

theorem Others.inherit (hinv : s.Inv) (hvalid : ∀ u, holder = some u → u < s.uxCurrentNumberOfTasks)
    (hkeep : s'.priority t = s.priority t) (h : vTaskPriorityInherit holder s = some s') :
    Others t p s.lists s'.lists := by
  unfold vTaskPriorityInherit at h
  split at h
  · next u cur hcur =>
    split_ifs at h with hoff hlow
    · cases h
      exact Others.of_list rfl
    · have hq := (hinv.tasks cur (hinv.current cur hcur)).priority_lt
      exact Others.reprioritise_of_ne hinv (hvalid u rfl) hq (Nat.ne_of_gt hlow) hkeep h
    · cases h
      exact Others.of_list rfl
  · cases h
    exact Others.of_list rfl

theorem Others.disinherit (hinv : s.Inv)
    (hvalid : ∀ u, holder = some u → u < s.uxCurrentNumberOfTasks)
    (hkeep : s'.priority t = s.priority t) (h : vTaskPriorityDisinherit holder s = some (r, s')) :
    Others t p s.lists s'.lists := by
  unfold vTaskPriorityDisinherit at h
  split at h
  · cases h
    exact Others.of_list rfl
  · next u =>
    split_ifs at h with hboosted
    · obtain ⟨s₁, hre, heq⟩ := Option.bind_eq_some_iff.mp h
      cases heq
      have hlt := hvalid u rfl
      have hbase := (hinv.tasks u hlt).base_lt
      exact Others.reprioritise_of_ne hinv hlt hbase (Ne.symm hboosted) hkeep hre
    · cases h
      exact Others.of_list rfl

end Others

/-! ### Schedules -/

def isSwitch : SchedOp → Bool
  | .vTaskSwitchContext => true
  | .taskYIELD => true
  | _ => false

theorem Blocked.ne {t u : TaskId} {e : Option ListId} {n : TickType} {s s' : Sched}
    (h : Blocked u e n s s') (hready : s'.Ready t) : u ≠ t := by
  rintro rfl
  by_cases hforever : e ≠ none ∧ n = portMaxDelay
  · exact not_ready_of_blocked (Or.inr (h.suspended hforever.1 hforever.2)) hready
  · refine not_ready_of_blocked (Or.inl (h.delayed ?_).1) hready
    by_cases he : e = none
    · exact Or.inl he
    · exact Or.inr fun hn => hforever ⟨he, hn⟩

variable {a : SchedOp}

theorem others_of_step {t : TaskId} {p : Nat} {s s' : SchedSys} (hreach : scheduler.Reach s)
    (hstep : scheduler.Step s a s') (hswitch : isSwitch a = false) (hready : s.sched.Ready t)
    (hready' : s'.sched.Ready t) (hkeep : s'.sched.priority t = s.sched.priority t) :
    Others t p s.sched.lists s'.sched.lists := by
  have hinv := (scheduler_inv hreach).sched
  have heffect := scheduler_effect hreach hstep
  obtain ⟨hadmits, hexec⟩ := hstep
  cases a with
  | xTaskCreate memory q =>
    obtain ⟨⟨r, σ⟩, hcreate, rfl⟩ := Option.map_eq_some_iff.mp hexec
    exact Others.create hinv (hinv.lt_of_stateList hready) hcreate
  | vTaskStartScheduler memory =>
    obtain ⟨σ, hstart, rfl⟩ := Option.map_eq_some_iff.mp hexec
    obtain ⟨⟨r, σ₁⟩, hcreate, heq⟩ := Option.bind_eq_some_iff.mp hstart
    cases heq
    have hothers : Others t p s.sched.lists σ₁.lists :=
      Others.create hinv (hinv.lt_of_stateList hready) hcreate
    exact hothers
  | vTaskDelay n =>
    obtain ⟨σ, hdelay, rfl⟩ := Option.map_eq_some_iff.mp hexec
    cases heffect with
    | delayed hcur _ hblocked => exact Others.delay hcur (hblocked.ne hready') hdelay
  | vTaskPlaceOnEventList e n =>
    obtain ⟨σ, hplace, rfl⟩ := Option.map_eq_some_iff.mp hexec
    cases heffect with
    | placed hcur _ hblocked =>
      exact Others.place (Bool.and_eq_true_iff.mp hadmits).1 hcur (hblocked.ne hready') hplace
  | xTaskRemoveFromEventList e =>
    obtain ⟨⟨y, σ⟩, hwake, rfl⟩ := Option.map_eq_some_iff.mp hexec
    exact Others.wake hinv (Bool.and_eq_true_iff.mp hadmits).1 hready hwake
  | vTaskPriorityInherit holder =>
    obtain ⟨σ, hinherit, rfl⟩ := Option.map_eq_some_iff.mp hexec
    exact Others.inherit hinv (SchedSys.of_validHandle hadmits) hkeep hinherit
  | vTaskPriorityDisinherit holder =>
    obtain ⟨⟨r, σ⟩, hdisinherit, rfl⟩ := Option.map_eq_some_iff.mp hexec
    exact Others.disinherit hinv (SchedSys.of_validHandle hadmits) hkeep hdisinherit
  | vTaskSetMutexInheritance b =>
    cases hexec
    exact Others.of_list rfl
  | xTaskIncrementTick =>
    obtain ⟨σ, htick, rfl⟩ := Option.map_eq_some_iff.mp hexec
    have hothers : Others t p (s.sched.setTickCount (s.sched.xTickCount + 1)).lists σ.lists :=
      Others.wakeLoop _ (hinv.setTickCount _) hready htick
    exact hothers
  | vTaskSwitchContext => cases hswitch
  | taskYIELD => cases hswitch

variable {σ : Sched} {m : Nat}

/-- The scan stops at the priority of the highest task. -/
theorem prvScanReady_of_highest {t : TaskId} (hinv : σ.Inv) (h : Highest σ t) :
    prvScanReady σ.lists σ.uxTopReadyPriority = σ.priority t := by
  obtain ⟨-, habove, hfound⟩ := prvScanReady_spec σ.lists σ.uxTopReadyPriority
  have hle : σ.priority t ≤ prvScanReady σ.lists σ.uxTopReadyPriority := by
    by_contra hlt
    have hnil := habove (σ.priority t) (Nat.not_le.mp hlt)
      ((hinv.tasks t (hinv.lt_of_stateList h.1)).top h.1)
    exact List.ne_nil_of_mem (mem_ready_list h.1) hnil
  refine Nat.le_antisymm ?_ hle
  rcases hfound with hzero | hne
  · rw [hzero]
    exact Nat.zero_le _
  · obtain ⟨i, hi⟩ := List.exists_mem_of_ne_nil _ hne
    obtain ⟨u, -, hlt, hready, hprio⟩ := hinv.mem_ready hi
    rw [← hprio]
    exact h.2 u hlt hready

theorem wait_switch {t : TaskId} (hinv : σ.Inv) (h : Highest σ t)
    (hsize : (σ.lists.list (xReadyTasksLists (σ.priority t))).items.length ≤ m + 1)
    (hother : (vTaskSwitchContext σ).pxCurrentTCB ≠ some t) :
    ((vTaskSwitchContext σ).lists.list (xReadyTasksLists (σ.priority t))).wait m
        (xStateListItem t) <
      (σ.lists.list (xReadyTasksLists (σ.priority t))).wait m (xStateListItem t) := by
  have hlist : (vTaskSwitchContext σ).lists.list (xReadyTasksLists (σ.priority t)) =
      (σ.lists.list (xReadyTasksLists (σ.priority t))).advance := by
    rw [vTaskSwitchContext_lists, prvScanReady_of_highest hinv h]
    simp [ListStore.listGetOwnerOfNextEntry]
  rw [hlist]
  apply RingList.wait_advance_lt (mem_ready_list h.1) hsize
  -- the owner of the task's item is the task
  intro hnext
  apply hother
  rw [vTaskSwitchContext_pxCurrentTCB, prvScanReady_of_highest hinv h,
    ListStore.listGetOwnerOfNextEntry, hnext]
  exact (hinv.tasks t (hinv.lt_of_stateList h.1)).owner_state

/-- The task is ready and no ready task has a higher priority; its priority is `p`, and at most
    `m` other tasks are in the ready list of that priority. -/
structure InTurn (t : TaskId) (p m : Nat) (s : SchedSys) : Prop where
  highest : Highest s.sched t
  priority : s.sched.priority t = p
  size : (s.sched.lists.list (xReadyTasksLists p)).items.length ≤ m + 1

instance (t : TaskId) (p m : Nat) (s : SchedSys) : Decidable (InTurn t p m s) :=
  decidable_of_iff (Highest s.sched t ∧ s.sched.priority t = p ∧
      (s.sched.lists.list (xReadyTasksLists p)).items.length ≤ m + 1)
    ⟨fun h => ⟨h.1, h.2.1, h.2.2⟩, fun h => ⟨h.highest, h.priority, h.size⟩⟩

/-- The task waits, and goes on waiting: the operation is not a switch to it. -/
def PassedOver (t : TaskId) (p m : Nat) (s : SchedSys) (a : SchedOp) : Prop :=
  InTurn t p m s ∧ ∀ s' ∈ s.exec a,
    InTurn t p m s' ∧ (isSwitch a = true → s'.sched.pxCurrentTCB ≠ some t)

instance (t : TaskId) (p m : Nat) (s : SchedSys) (a : SchedOp) : Decidable (PassedOver t p m s a) :=
  inferInstanceAs (Decidable (_ ∧ _))

def switches (as : List SchedOp) : Nat := as.countP isSwitch

def waitOf (t : TaskId) (p m : Nat) (s : SchedSys) : Nat :=
  (s.sched.lists.list (xReadyTasksLists p)).wait m (xStateListItem t)

theorem waitOf_step {t : TaskId} {p : Nat} {s s' : SchedSys} (hreach : scheduler.Reach s)
    (hstep : scheduler.Step s a s') (hwaiting : PassedOver t p m s a) :
    waitOf t p m s' + switches [a] ≤ waitOf t p m s := by
  obtain ⟨hwaits, hnext⟩ := hwaiting
  obtain ⟨hwaits', hother⟩ := hnext s' hstep.2
  have hprio := hwaits.priority
  have hinv := (scheduler_inv hreach).sched
  cases hswitch : isSwitch a with
  | false =>
    have hothers := others_of_step (p := p) hreach hstep hswitch hwaits.highest.1 hwaits'.highest.1
      (hwaits'.priority.trans hprio.symm)
    have hmem : xStateListItem t ∈ (s.sched.lists.list (xReadyTasksLists p)).items :=
      hprio ▸ mem_ready_list hwaits.highest.1
    have hcount : switches [a] = 0 := by simp [switches, hswitch]
    rw [hcount]
    exact (hothers m hmem).2
  | true =>
    have hsched : s'.sched = vTaskSwitchContext s.sched := by
      cases a with
      | vTaskSwitchContext | taskYIELD =>
        cases hstep.2
        rfl
      | _ => cases hswitch
    have hlt := wait_switch (m := m) hinv hwaits.highest (hprio ▸ hwaits.size)
      (hsched ▸ hother hswitch)
    rw [← hsched, hprio] at hlt
    have hcount : switches [a] = 1 := by simp [switches, hswitch]
    rw [hcount]
    exact hlt

theorem waitOf_run {t : TaskId} {p : Nat} {s s' : SchedSys} {as : List SchedOp}
    (hreach : scheduler.Reach s) (hrun : (scheduler.restrict (PassedOver t p m)).Run s as s') :
    scheduler.Reach s' ∧ waitOf t p m s' + switches as ≤ waitOf t p m s := by
  induction hrun with
  | refl => exact ⟨hreach, Nat.le_refl _⟩
  | @tail as s₁ s₂ a _ hst ih =>
    obtain ⟨hstep, hwaiting⟩ := Machine.restrict_step.mp hst
    have hle := waitOf_step ih.1 hstep hwaiting
    have hcount : switches (as ++ [a]) = switches as + switches [a] := List.countP_append ..
    refine ⟨ih.1.step hstep, ?_⟩
    rw [hcount]
    have := ih.2
    omega

theorem length_ready_le (hinv : σ.Inv) (p : Nat) :
    (σ.lists.list (xReadyTasksLists p)).items.length ≤ σ.uxCurrentNumberOfTasks := by
  have hsub : (σ.lists.list (xReadyTasksLists p)).items ⊆
      (List.range σ.uxCurrentNumberOfTasks).map xStateListItem := by
    intro i hi
    obtain ⟨t, rfl, hlt, -⟩ := hinv.mem_ready hi
    exact List.mem_map_of_mem (List.mem_range.mpr hlt)
  have hle := List.Nodup.length_le_of_subset (σ.lists.list (xReadyTasksLists p)).nodup hsub
  rwa [List.length_map, List.length_range] at hle

/-- A task that stays ready, with no task of a higher priority ready, is not passed over
    longer than it takes to switch to every other task of its priority twice, however these
    block, are woken and change their priorities in between; and there are fewer of them than
    tasks. -/
theorem waiting_is_bounded :
    (∀ (t : TaskId) (p m : Nat) (s s' : SchedSys) (as : List SchedOp), scheduler.Reach s →
      (scheduler.restrict (PassedOver t p m)).Run s as s' → switches as ≤ 2 * m) ∧
    ∀ (s : SchedSys) (p : Nat), scheduler.Reach s →
      (s.sched.lists.list (xReadyTasksLists p)).items.length ≤
        s.sched.uxCurrentNumberOfTasks := by
  refine ⟨fun t p m s s' as hreach hrun => ?_, fun s p hreach =>
    length_ready_le (scheduler_inv hreach).sched p⟩
  cases as with
  | nil => exact Nat.zero_le _
  | cons a as =>
    obtain ⟨s₁, hst, -⟩ := hrun.head
    have hwaits := (Machine.restrict_step.mp hst).2.1
    have hle := (waitOf_run hreach hrun).2
    have hpos := RingList.wait_pos m (s'.sched.lists.list (xReadyTasksLists p)) (xStateListItem t)
    have hmax : waitOf t p m s ≤ 2 * m + 1 :=
      RingList.wait_le (hwaits.priority ▸ mem_ready_list hwaits.highest.1) hwaits.size
    unfold waitOf at hle hmax
    omega

/-- Two tasks of one priority.  Task 0 has been selected and waits.  Task 1 runs, blocks for
    one tick and is woken at the cursor, which has gone back to task 0; so the next switch goes
    to task 1 again. -/
theorem waiting_is_bounded_twice :
    ∃ s s' as, scheduler.Reach s ∧ s.sched.pxCurrentTCB = some 0 ∧
      (scheduler.restrict (PassedOver 0 1 1)).Run s as s' ∧ switches as = 2 ∧
      switches as ≤ 2 * 1 := by
  obtain ⟨s, hreach, hs⟩ := scheduler.exists_reach
    [.xTaskCreate ⟨true, true⟩ 1, .xTaskCreate ⟨true, true⟩ 1, .vTaskStartScheduler ⟨true, true⟩,
      .vTaskSwitchContext]
    (fun s => s.sched.pxCurrentTCB = some 0 ∧
      ((scheduler.restrict (PassedOver 0 1 1)).runList s [.vTaskSwitchContext, .vTaskDelay 1,
        .xTaskIncrementTick, .vTaskSwitchContext]).isSome = true) (by decide)
  obtain ⟨hcur, hrun⟩ := of_decide_eq_true hs
  obtain ⟨s', hrun⟩ := Option.isSome_iff_exists.mp hrun
  have hwait := Machine.run_of_runList hrun
  exact ⟨s, s', _, hreach, hcur, hwait, rfl, waiting_is_bounded.1 0 1 1 s s' _ hreach hwait⟩

end FlintRTOS
