import FlintRTOS.KernelSchedule

/-!
# The order in which waiters are woken

`vTaskPlaceOnEventList` enters a task into an event list by the value of its
event item, and `xTaskRemoveFromEventList` wakes the head.  `xTaskCreate` sets
that value from the priority the task is created with, and nothing changes it
afterwards: a task that inherits a priority keeps its place.

So an event list is ordered by base priority, and among equal base priorities by
the moment at which the tasks began to wait.  That moment is not part of the
state of `tasks.c`; it is recorded beside it.  The task that is woken is the one
of the highest current priority unless a waiter behind the head has been raised.
-/

namespace FlintRTOS

open ListId ItemId ListStore

/-! ### What the functions do to the event lists

Except for `vTaskPlaceOnEventList` they only take items off the event lists, and
they change no event item's value once its task exists. -/

/-- The event item of one of the first `n` tasks. -/
def ItemId.IsEventOf (n : Nat) (i : ItemId) : Prop := ∃ t < n, i = xEventListItem t

/-- The event lists only lose items, and the event items of the first `n` tasks
    keep their values. -/
def WaitersKept (n : Nat) (lists lists' : Lists) : Prop :=
  lists.Thins (fun l => l.isEventList = true) (ItemId.IsEventOf n) lists'

section WaitersKept

variable {n : Nat} {s s' : Sched} {t : TaskId}

theorem not_isEventOf_state : ¬ (xStateListItem t).IsEventOf n := by
  rintro ⟨u, _, heq⟩
  cases heq

theorem WaitersKept.setState (lists : Lists) (value : TickType) (owner : Option TaskId) :
    WaitersKept n lists (lists.setItem (xStateListItem t) value owner) :=
  Thins.setItem not_isEventOf_state value owner

theorem WaitersKept.add (h : prvAddTaskToReadyList t s = some s') :
    WaitersKept n s.lists s'.lists := by
  obtain ⟨lists, hinsert, heq⟩ := Option.bind_eq_some_iff.mp h
  cases heq
  apply (WaitersKept.setState _ _ _).trans
  apply (WaitersKept.setState _ _ _).trans
  exact Thins.vListInsertEnd (l := xReadyTasksLists _) Bool.false_ne_true hinsert

variable {p : Nat} {holder : Option TaskId} {r : BaseType} {e : ListId} {memory : TaskMemory}

theorem WaitersKept.reprioritise (h : prvReprioritise t p s = some s') :
    WaitersKept n s.lists s'.lists := by
  unfold prvReprioritise at h
  split at h
  · obtain ⟨lists, hremove, hadd⟩ := Option.bind_eq_some_iff.mp h
    exact (Thins.uxListRemove hremove).trans (WaitersKept.add hadd)
  · cases h
    exact Thins.refl _

theorem WaitersKept.inherit (h : vTaskPriorityInherit holder s = some s') :
    WaitersKept n s.lists s'.lists := by
  unfold vTaskPriorityInherit at h
  split at h
  · split_ifs at h
    · cases h
      exact Thins.refl _
    · exact WaitersKept.reprioritise h
    · cases h
      exact Thins.refl _
  · cases h
    exact Thins.refl _

theorem WaitersKept.disinherit (h : vTaskPriorityDisinherit holder s = some (r, s')) :
    WaitersKept n s.lists s'.lists := by
  unfold vTaskPriorityDisinherit at h
  split at h
  · cases h
    exact Thins.refl _
  · split_ifs at h
    · obtain ⟨s₁, hre, heq⟩ := Option.bind_eq_some_iff.mp h
      cases heq
      exact WaitersKept.reprioritise hre
    · cases h
      exact Thins.refl _

theorem WaitersKept.removeEventItem {lists lists' : Lists}
    (h : prvRemoveEventItem t lists = some lists') : WaitersKept n lists lists' := by
  unfold prvRemoveEventItem at h
  split at h
  · exact Thins.uxListRemove h
  · cases h
    exact Thins.refl _

theorem WaitersKept.wakeDue {i : ItemId} (h : prvWakeDue i s = some s') :
    WaitersKept n s.lists s'.lists := by
  obtain ⟨w, _, h⟩ := Option.bind_eq_some_iff.mp h
  obtain ⟨lists₁, hremove, h⟩ := Option.bind_eq_some_iff.mp h
  obtain ⟨lists₂, hevent, hadd⟩ := Option.bind_eq_some_iff.mp h
  apply (Thins.uxListRemove hremove).trans
  exact (WaitersKept.removeEventItem hevent).trans (WaitersKept.add hadd)

theorem WaitersKept.wakeLoop (fuel : Nat) :
    ∀ {s : Sched}, prvWakeLoop fuel s = some s' → WaitersKept n s.lists s'.lists := by
  induction fuel with
  | zero =>
    intro s h
    cases h
    exact Thins.refl _
  | succ fuel ih =>
    intro s h
    unfold prvWakeLoop at h
    split at h
    · cases h
      exact Thins.refl _
    · split at h
      · cases h
        exact Thins.refl _
      · obtain ⟨s₁, hwake, hloop⟩ := Option.bind_eq_some_iff.mp h
        exact (WaitersKept.wakeDue hwake).trans (ih hloop)

theorem WaitersKept.delay {ticks : TickType} (h : vTaskDelaySection ticks s = some s') :
    WaitersKept n s.lists s'.lists := by
  obtain ⟨t, _, h⟩ := Option.bind_eq_some_iff.mp h
  obtain ⟨lists₁, hremove, h⟩ := Option.bind_eq_some_iff.mp h
  obtain ⟨lists₂, hinsert, heq⟩ := Option.bind_eq_some_iff.mp h
  cases heq
  apply (Thins.uxListRemove hremove).trans
  apply (WaitersKept.setState _ _ _).trans
  exact Thins.vListInsert (l := xDelayedTaskList) Bool.false_ne_true hinsert

theorem WaitersKept.wake {y : Bool} (h : xTaskRemoveFromEventList e s = some (y, s')) :
    WaitersKept n s.lists s'.lists := by
  unfold xTaskRemoveFromEventList at h
  split at h
  · cases h
    exact Thins.refl _
  · obtain ⟨i, _, h⟩ := Option.bind_eq_some_iff.mp h
    obtain ⟨w, _, h⟩ := Option.bind_eq_some_iff.mp h
    obtain ⟨lists₁, hevent, h⟩ := Option.bind_eq_some_iff.mp h
    obtain ⟨lists₂, hstate, h⟩ := Option.bind_eq_some_iff.mp h
    obtain ⟨s₁, hadd, h⟩ := Option.bind_eq_some_iff.mp h
    obtain ⟨cur, _, heq⟩ := Option.bind_eq_some_iff.mp h
    cases heq
    apply (Thins.uxListRemove hevent).trans
    exact (Thins.uxListRemove hstate).trans (WaitersKept.add hadd)

theorem WaitersKept.switch (s : Sched) :
    WaitersKept n s.lists (vTaskSwitchContext s).lists :=
  Thins.listGetOwnerOfNextEntry _ _

/-- A new task's items are initialised, those of the tasks before it are not
    touched. -/
theorem WaitersKept.newTask (h : prvCreateTask p s = some s') :
    WaitersKept s.uxCurrentNumberOfTasks s.lists s'.lists := by
  obtain ⟨lists₁, hstate, h⟩ := Option.bind_eq_some_iff.mp h
  obtain ⟨lists₂, hevent, hadd⟩ := Option.bind_eq_some_iff.mp h
  have hnew : ¬ (xEventListItem s.uxCurrentNumberOfTasks).IsEventOf
      s.uxCurrentNumberOfTasks := by
    rintro ⟨u, hu, heq⟩
    cases heq
    exact Nat.lt_irrefl _ hu
  apply (Thins.vListInitialiseItem not_isEventOf_state hstate).trans
  apply (Thins.vListInitialiseItem hnew hevent).trans
  apply (WaitersKept.setState _ _ _).trans
  apply (Thins.setItem hnew _ _).trans
  apply (Thins.setItem hnew _ _).trans
  exact WaitersKept.add hadd

theorem WaitersKept.create (hinv : s.Inv) (h : xTaskCreate memory p s = some (r, s')) :
    WaitersKept s.uxCurrentNumberOfTasks s.lists s'.lists := by
  unfold xTaskCreate at h
  simp only [prvEnsureTaskLists_eq hinv.free.1, Option.bind_eq_bind, Option.bind_some] at h
  split at h
  · obtain ⟨s₁, hcreate, heq⟩ := Option.bind_eq_some_iff.mp h
    cases heq
    exact WaitersKept.newTask (s := s.setListsInitialised) hcreate
  · cases h
    exact Thins.refl _

theorem WaitersKept.start (hinv : s.Inv) (h : vTaskStartScheduler memory s = some s') :
    WaitersKept s.uxCurrentNumberOfTasks s.lists s'.lists := by
  obtain ⟨⟨r, s₁⟩, hcreate, heq⟩ := Option.bind_eq_some_iff.mp h
  cases heq
  have hkept : WaitersKept _ s.lists s₁.lists := WaitersKept.create hinv hcreate
  exact hkept

/-- A task that places itself is inserted into its event list, and nothing else
    is: `lists₁` and `lists₂` are the lists around the insertion. -/
theorem WaitersKept.place {ticks : TickType} (hcur : s.pxCurrentTCB = some t)
    (h : vTaskPlaceOnEventList e ticks s = some s') :
    ∃ lists₁ lists₂, WaitersKept n s.lists lists₁ ∧
      lists₁.vListInsert e (xEventListItem t) = some lists₂ ∧
      WaitersKept n lists₂ s'.lists := by
  obtain ⟨t', ht', h⟩ := Option.bind_eq_some_iff.mp h
  cases hcur.symm.trans ht'
  obtain ⟨lists₁, hremove, h⟩ := Option.bind_eq_some_iff.mp h
  obtain ⟨lists₂, hinsert, h⟩ := Option.bind_eq_some_iff.mp h
  refine ⟨lists₁, lists₂, Thins.uxListRemove hremove, hinsert, ?_⟩
  split at h
  · obtain ⟨lists₃, hend, heq⟩ := Option.bind_eq_some_iff.mp h
    cases heq
    exact Thins.vListInsertEnd (l := xSuspendedTaskList) Bool.false_ne_true hend
  · obtain ⟨lists₃, hdelay, heq⟩ := Option.bind_eq_some_iff.mp h
    cases heq
    apply (WaitersKept.setState _ _ _).trans
    exact Thins.vListInsert (l := xDelayedTaskList) Bool.false_ne_true hdelay

end WaitersKept

variable {a : SchedOp}

/-- Every operation but the placing of a task keeps the waiters. -/
theorem waitersKept_step {s s' : SchedSys} (hinv : s.Inv) (hexec : s.exec a = some s')
    (hother : ∀ e n, a ≠ .vTaskPlaceOnEventList e n) :
    WaitersKept s.sched.uxCurrentNumberOfTasks s.sched.lists s'.sched.lists := by
  cases a with
  | xTaskCreate memory p =>
    obtain ⟨⟨r, σ⟩, hσ, rfl⟩ := Option.map_eq_some_iff.mp hexec
    exact WaitersKept.create hinv.sched hσ
  | vTaskStartScheduler memory =>
    obtain ⟨σ, hσ, rfl⟩ := Option.map_eq_some_iff.mp hexec
    exact WaitersKept.start hinv.sched hσ
  | vTaskDelay ticks =>
    obtain ⟨σ, hσ, rfl⟩ := Option.map_eq_some_iff.mp hexec
    exact WaitersKept.delay hσ
  | vTaskPlaceOnEventList e ticks => exact absurd rfl (hother e ticks)
  | xTaskRemoveFromEventList e =>
    obtain ⟨⟨y, σ⟩, hσ, rfl⟩ := Option.map_eq_some_iff.mp hexec
    exact WaitersKept.wake hσ
  | vTaskPriorityInherit holder =>
    obtain ⟨σ, hσ, rfl⟩ := Option.map_eq_some_iff.mp hexec
    exact WaitersKept.inherit hσ
  | vTaskPriorityDisinherit holder =>
    obtain ⟨⟨r, σ⟩, hσ, rfl⟩ := Option.map_eq_some_iff.mp hexec
    exact WaitersKept.disinherit hσ
  | vTaskSetMutexInheritance b =>
    cases hexec
    exact Thins.refl _
  | xTaskIncrementTick =>
    obtain ⟨σ, hσ, rfl⟩ := Option.map_eq_some_iff.mp hexec
    exact WaitersKept.wakeLoop (s := s.sched.setTickCount (s.sched.xTickCount + 1)) _ hσ
  | vTaskSwitchContext =>
    cases hexec
    exact WaitersKept.switch s.sched
  | taskYIELD =>
    cases hexec
    exact WaitersKept.switch s.sched

/-! ### Ranks -/

/-- The value that `xTaskCreate` gives the event item of a task of priority `p`. -/
def eventValue (p : Nat) : TickType := UInt32.ofNat (configMaxPriorities - p)

theorem eventValue_le_iff {p p' : Nat} (hp : p < configMaxPriorities)
    (hp' : p' < configMaxPriorities) : eventValue p ≤ eventValue p' ↔ p' ≤ p := by
  have htoNat : ∀ q, (eventValue q).toNat = configMaxPriorities - q := by
    intro q
    apply UInt32.toNat_ofNat_of_lt'
    unfold configMaxPriorities UInt32.size
    omega
  rw [UInt32.le_iff_toNat_le, htoNat, htoNat]
  omega

/-- Each task runs at its base priority or above it, and its event item's value
    is that of its base priority. -/
structure Sched.Ranked (σ : Sched) : Prop where
  floor : ∀ t < σ.uxCurrentNumberOfTasks, σ.basePriority t ≤ σ.priority t
  value : ∀ t < σ.uxCurrentNumberOfTasks,
    (σ.lists.item (xEventListItem t)).xItemValue = eventValue (σ.basePriority t)

/-- The tasks that exist keep their base priorities. -/
structure RanksKept (σ σ' : Sched) : Prop where
  number : σ.uxCurrentNumberOfTasks ≤ σ'.uxCurrentNumberOfTasks
  base : ∀ t < σ.uxCurrentNumberOfTasks, σ'.basePriority t = σ.basePriority t
  floor : σ.Ranked → ∀ t < σ'.uxCurrentNumberOfTasks, σ'.basePriority t ≤ σ'.priority t
  value : ∀ t, σ.uxCurrentNumberOfTasks ≤ t → t < σ'.uxCurrentNumberOfTasks →
    (σ'.lists.item (xEventListItem t)).xItemValue = eventValue (σ'.basePriority t)

section RanksKept

variable {σ σ' : Sched}

theorem RanksKept.ranked (h : RanksKept σ σ') (hranked : σ.Ranked)
    (hvalue : ∀ t < σ.uxCurrentNumberOfTasks,
      (σ'.lists.item (xEventListItem t)).xItemValue =
        (σ.lists.item (xEventListItem t)).xItemValue) : σ'.Ranked := by
  refine ⟨h.floor hranked, ?_⟩
  intro t ht
  by_cases hlt : t < σ.uxCurrentNumberOfTasks
  · rw [hvalue t hlt, h.base t hlt]
    exact hranked.value t hlt
  · exact h.value t (Nat.not_lt.mp hlt) ht

theorem RanksKept.of_priorities (hnumber : σ'.uxCurrentNumberOfTasks = σ.uxCurrentNumberOfTasks)
    (hprio : ∀ t, σ'.priority t = σ.priority t ∧ σ'.basePriority t = σ.basePriority t) :
    RanksKept σ σ' := by
  refine ⟨Nat.le_of_eq hnumber.symm, fun t _ => (hprio t).2, ?_, ?_⟩
  · intro hranked t ht
    rw [(hprio t).1, (hprio t).2]
    exact hranked.floor t (hnumber ▸ ht)
  · intro t hle hlt
    exact absurd (hnumber ▸ hlt) (Nat.not_lt.mpr hle)

variable {p : Nat}

theorem RanksKept.of_reprioritised {t : TaskId} (h : Reprioritised t p σ σ')
    (hp : σ.Ranked → t < σ.uxCurrentNumberOfTasks → σ.basePriority t ≤ p) : RanksKept σ σ' := by
  have hnumber : σ'.uxCurrentNumberOfTasks = σ.uxCurrentNumberOfTasks := by
    obtain ⟨top, lists, rfl⟩ := h.frame
    rfl
  refine ⟨Nat.le_of_eq hnumber.symm, fun u _ => h.basePriority u, ?_, ?_⟩
  · intro hranked u hu
    rw [hnumber] at hu
    rw [h.basePriority u, h.priority u]
    split_ifs with heq
    · subst heq
      exact hp hranked hu
    · exact hranked.floor u hu
  · intro u hle hlt
    exact absurd (hnumber ▸ hlt) (Nat.not_lt.mpr hle)

theorem RanksKept.create {memory : TaskMemory} {r : BaseType} (hinv : σ.Inv)
    (hexec : xTaskCreate memory p σ = some (r, σ')) : RanksKept σ σ' := by
  obtain ⟨r', σ₁, hexec₁, hcreated, _⟩ := xTaskCreate_inv hinv memory p
  cases hexec.symm.trans hexec₁
  refine ⟨hcreated.number, ?_, ?_, ?_⟩
  · intro t ht
    rw [Sched.basePriority, hcreated.tcb t ht, Sched.basePriority]
  · intro hranked t ht
    by_cases hlt : t < σ.uxCurrentNumberOfTasks
    · rw [Sched.basePriority, Sched.priority, hcreated.tcb t hlt]
      exact hranked.floor t hlt
    · exact Nat.le_of_eq (hcreated.added t (Nat.not_lt.mp hlt) ht).2.symm
  · intro t hle hlt
    obtain ⟨hfree, hstate, hevent⟩ := hinv.free
    obtain ⟨lists, _, hcase⟩ := xTaskCreate_spec memory p hfree hstate hevent
    rcases hcase with ⟨_, hres, hitem⟩ | ⟨_, hres, _⟩
    · cases hexec.symm.trans hres
      have heq : t = σ.uxCurrentNumberOfTasks := Nat.le_antisymm (Nat.le_of_lt_succ hlt) hle
      subst heq
      simp [hitem, Items.create, Sched.basePriority, eventValue]
    · cases hexec.symm.trans hres
      exact absurd hlt (Nat.not_lt.mpr hle)

end RanksKept

theorem ranksKept_step {s s' : SchedSys} (hinv : s.Inv) (hadmits : s.admits a = true)
    (hexec : s.exec a = some s') : RanksKept s.sched s'.sched := by
  obtain ⟨s₁, hexec₁, heffect⟩ := hinv.effect hadmits
  cases hexec.symm.trans hexec₁
  cases heffect with
  | created =>
    obtain ⟨⟨r, σ⟩, hσ, heq⟩ := Option.map_eq_some_iff.mp hexec
    cases heq
    exact RanksKept.create hinv.sched hσ
  | started =>
    obtain ⟨σ, hσ, heq⟩ := Option.map_eq_some_iff.mp hexec
    cases heq
    obtain ⟨⟨r, σ₁⟩, hcreate, heq⟩ := Option.bind_eq_some_iff.mp hσ
    cases heq
    obtain ⟨hnumber, hbase, hfloor, hvalue⟩ := RanksKept.create hinv.sched hcreate
    exact ⟨hnumber, hbase, hfloor, hvalue⟩
  | delayed _ _ hblocked | placed _ _ hblocked =>
    refine RanksKept.of_priorities ?_ hblocked.priorities
    obtain ⟨lists, rfl⟩ := hblocked.frame
    rfl
  | woken _ hwake =>
    refine RanksKept.of_priorities ?_ hwake.priorities
    obtain ⟨top, lists, rfl⟩ := hwake.frame
    rfl
  | inherited =>
    obtain ⟨σ, hσ, heq⟩ := Option.map_eq_some_iff.mp hexec
    cases heq
    obtain ⟨σ₁, hσ₁, hcase⟩ :=
      vTaskPriorityInherit_inv hinv.sched (SchedSys.of_validHandle hadmits)
    cases hσ.symm.trans hσ₁
    rcases hcase with ⟨t, cur, _, _, ⟨_, hlow⟩, hre⟩ | ⟨_, rfl⟩
    · -- the holder is raised to a priority above its own
      apply RanksKept.of_reprioritised hre
      intro hranked ht
      exact Nat.le_trans (hranked.floor t ht) (Nat.le_of_lt hlow)
    · exact RanksKept.of_priorities rfl fun _ => ⟨rfl, rfl⟩
  | disinherited =>
    obtain ⟨⟨r, σ⟩, hσ, heq⟩ := Option.map_eq_some_iff.mp hexec
    cases heq
    obtain ⟨r₁, σ₁, hσ₁, hcase⟩ :=
      vTaskPriorityDisinherit_inv hinv.sched (SchedSys.of_validHandle hadmits)
    cases hσ.symm.trans hσ₁
    rcases hcase with ⟨t, _, _, hre⟩ | ⟨_, rfl⟩
    · exact RanksKept.of_reprioritised hre fun _ _ => Nat.le_refl _
    · exact RanksKept.of_priorities rfl fun _ => ⟨rfl, rfl⟩
  | inheritance b => exact RanksKept.of_priorities rfl fun _ => ⟨rfl, rfl⟩
  | ticked hwoke =>
    refine RanksKept.of_priorities ?_ hwoke.priorities
    obtain ⟨top, lists, rfl⟩ := hwoke.frame
    rfl
  | switched | yielded => exact RanksKept.of_priorities rfl fun _ => ⟨rfl, rfl⟩

/-! ### The moment at which a task began to wait -/

/-- How many operations there have been, and at which of them each task was last
    placed on an event list. -/
structure Waits where
  now : Nat
  since : TaskId → Nat

def Waits.note (g : Waits) (s : SchedSys) (a : SchedOp) : Waits :=
  match a, s.sched.pxCurrentTCB with
  | .vTaskPlaceOnEventList _ _, some t => ⟨g.now + 1, Function.update g.since t (g.now + 1)⟩
  | _, _ => ⟨g.now + 1, g.since⟩

theorem Waits.note_of_ne {g : Waits} {s : SchedSys} (h : ∀ e n, a ≠ .vTaskPlaceOnEventList e n) :
    g.note s a = ⟨g.now + 1, g.since⟩ := by
  unfold note
  split
  · exact absurd rfl (h _ _)
  · rfl

/-- The scheduler with a record of when each task began to wait. -/
def waitingScheduler : Machine (SchedSys × Waits) SchedOp :=
  scheduler.ghost ⟨0, fun _ => 0⟩ Waits.note

instance (x : SchedSys × Waits) (a : SchedOp) : Decidable (waitingScheduler.guard x a) :=
  inferInstanceAs (Decidable (x.1.admits a = true))

/-- The order of the event lists: by base priority, then by the time of waiting. -/
def Ahead (σ : Sched) (g : Waits) (t u : TaskId) : Prop :=
  σ.basePriority u < σ.basePriority t ∨
    σ.basePriority u = σ.basePriority t ∧ g.since t < g.since u

/-- The invariant of the event lists. -/
structure WaitOrder (σ : Sched) (g : Waits) : Prop where
  ranked : σ.Ranked
  past : ∀ t, g.since t ≤ g.now
  ahead : ∀ e : ListId, e.isEventList → (σ.lists.list e).items.Pairwise fun i j =>
    Ahead σ g i.task j.task

section WaitOrder

variable {s s' : SchedSys} {g : Waits}

/-- Tasks that keep their base priority and the moment they began to wait keep
    their order. -/
theorem Ahead.congr {σ σ' : Sched} {g g' : Waits} {t u : TaskId}
    (ht : σ'.basePriority t = σ.basePriority t ∧ g'.since t = g.since t)
    (hu : σ'.basePriority u = σ.basePriority u ∧ g'.since u = g.since u)
    (h : Ahead σ g t u) : Ahead σ' g' t u := by
  simpa only [Ahead, ht.1, ht.2, hu.1, hu.2] using h

theorem WaitOrder.kept (h : WaitOrder s.sched g) (hinv : s.Inv)
    (hranks : RanksKept s.sched s'.sched)
    (hkept : WaitersKept s.sched.uxCurrentNumberOfTasks s.sched.lists s'.sched.lists) :
    WaitOrder s'.sched ⟨g.now + 1, g.since⟩ := by
  refine ⟨hranks.ranked h.ranked fun t ht => hkept.value _ ⟨t, ht, rfl⟩,
    fun t => Nat.le_succ_of_le (h.past t), ?_⟩
  intro e he
  refine ((h.ahead e he).imp_of_mem ?_).sublist (hkept.sublist e he)
  intro i j hi hj hij
  obtain ⟨t, rfl, ht, _⟩ := hinv.sched.mem_event he hi
  obtain ⟨u, rfl, hu, _⟩ := hinv.sched.mem_event he hj
  exact hij.congr ⟨hranks.base t ht, rfl⟩ ⟨hranks.base u hu, rfl⟩

/-- A task that began to wait last is inserted where it belongs. -/
theorem pairwise_ahead_insertAfter {σ : Sched} {lists : Lists} {t : TaskId} {items : List ItemId}
    (hahead : items.Pairwise fun i j => Ahead σ g i.task j.task)
    (hitems : ∀ i ∈ items, ∃ u, i = xEventListItem u ∧
      ((lists.item (xEventListItem u)).xItemValue = eventValue (σ.basePriority u) ∧
        σ.basePriority u < configMaxPriorities) ∧ g.since u < g.since t)
    (ht : (lists.item (xEventListItem t)).xItemValue = eventValue (σ.basePriority t) ∧
      σ.basePriority t < configMaxPriorities) :
    (CursorRing.insertAfter (fun j => decide ((lists.item j).xItemValue ≤
      (lists.item (xEventListItem t)).xItemValue)) (xEventListItem t) items).Pairwise fun i j =>
        Ahead σ g i.task j.task := by
  have hwalk : ∀ i ∈ items, ((lists.item i).xItemValue ≤
      (lists.item (xEventListItem t)).xItemValue ↔
        σ.basePriority t ≤ σ.basePriority i.task) ∧ g.since i.task < g.since t := by
    intro i hi
    obtain ⟨u, rfl, ⟨hvalue, hlt⟩, hsince⟩ := hitems i hi
    rw [hvalue, ht.1]
    exact ⟨eventValue_le_iff hlt ht.2, hsince⟩
  apply CursorRing.pairwise_insertAfter hahead
  · intro i hi hle
    have hbase := (hwalk i hi).1.mp (of_decide_eq_true hle)
    rcases Nat.lt_or_eq_of_le hbase with hlt | heq
    · exact Or.inl hlt
    · exact Or.inr ⟨heq, (hwalk i hi).2⟩
  · intro i hi hle
    have hbase := mt (hwalk i hi).1.mpr (of_decide_eq_false hle)
    exact Or.inl (Nat.not_le.mp hbase)
  · intro i hi j hj hij hle
    have hbase := (hwalk j hj).1.mp (of_decide_eq_true hle)
    apply decide_eq_true
    apply (hwalk i hi).1.mpr
    rcases hij with hlt | ⟨heq, _⟩
    · exact Nat.le_trans hbase (Nat.le_of_lt hlt)
    · exact Nat.le_trans hbase (Nat.le_of_eq heq)

/-- The running task enters its event list behind the tasks of its base priority
    and above. -/
theorem WaitOrder.place (h : WaitOrder s.sched g) (hinv : s.Inv) {t : TaskId} {e : ListId}
    {ticks : TickType} (he : e.isEventList) (hcur : s.sched.pxCurrentTCB = some t)
    (hready : s.sched.Ready t) (hranks : RanksKept s.sched s'.sched)
    (hexec : vTaskPlaceOnEventList e ticks s.sched = some s'.sched) :
    WaitOrder s'.sched ⟨g.now + 1, Function.update g.since t (g.now + 1)⟩ := by
  have ht := hinv.sched.current t hcur
  have hfree := (hinv.sched.tasks t ht).ready_free hready
  obtain ⟨lists₁, lists₂, hkept₁, hinsert, hkept₂⟩ :=
    WaitersKept.place (n := s.sched.uxCurrentNumberOfTasks) hcur hexec
  obtain ⟨lists, hinsert', hitem, hitems, hothers⟩ :=
    vListInsert_eq e (free_of_vListInsert hinsert)
  cases hinsert.symm.trans hinsert'
  have hranked : ∀ u < s.sched.uxCurrentNumberOfTasks,
      (lists₁.item (xEventListItem u)).xItemValue = eventValue (s'.sched.basePriority u) ∧
        s'.sched.basePriority u < configMaxPriorities := by
    intro u hu
    rw [hkept₁.value _ ⟨u, hu, rfl⟩, hranks.base u hu]
    exact ⟨h.ranked.value u hu, (hinv.sched.tasks u hu).base_lt⟩
  have hwaiters : ∀ l : ListId, l.isEventList → ∀ i ∈ (lists₁.list l).items,
      ∃ u, i = xEventListItem u ∧ u < s.sched.uxCurrentNumberOfTasks ∧ u ≠ t := by
    intro l hl i hi
    obtain ⟨u, rfl, hu, hwait, _⟩ :=
      hinv.sched.mem_event hl ((hkept₁.sublist l hl).subset hi)
    refine ⟨u, rfl, hu, ?_⟩
    rintro rfl
    rw [hfree] at hwait
    cases hwait
  have hahead₁ : ∀ l : ListId, l.isEventList → (lists₁.list l).items.Pairwise fun i j =>
      Ahead s'.sched ⟨g.now + 1, Function.update g.since t (g.now + 1)⟩ i.task j.task := by
    intro l hl
    refine ((h.ahead l hl).sublist (hkept₁.sublist l hl)).imp_of_mem ?_
    intro i j hi hj hij
    obtain ⟨u, rfl, hu, hut⟩ := hwaiters l hl i hi
    obtain ⟨v, rfl, hv, hvt⟩ := hwaiters l hl j hj
    exact hij.congr ⟨hranks.base u hu, Function.update_of_ne hut _ _⟩
      ⟨hranks.base v hv, Function.update_of_ne hvt _ _⟩
  refine ⟨hranks.ranked h.ranked ?_, ?_, ?_⟩
  · intro u hu
    rw [hkept₂.value _ ⟨u, hu, rfl⟩, ← hkept₁.value _ ⟨u, hu, rfl⟩, hitem]
    by_cases hut : u = t
    · subst hut
      simp
    · simp [hut]
  · intro u
    by_cases hut : u = t
    · subst hut
      simp
    · simpa [hut] using Nat.le_succ_of_le (h.past u)
  · intro l hl
    refine List.Pairwise.sublist (hkept₂.sublist l hl) ?_
    by_cases hle : l = e
    · subst hle
      rw [hitems]
      refine pairwise_ahead_insertAfter (hahead₁ l hl) (fun i hi => ?_) (hranked t ht)
      obtain ⟨u, rfl, hu, hut⟩ := hwaiters l hl i hi
      refine ⟨u, rfl, hranked u hu, ?_⟩
      simpa [hut] using Nat.lt_succ_of_le (h.past u)
    · rw [hothers l hle]
      exact hahead₁ l hl

/-- **One operation** keeps the order of the event lists. -/
theorem WaitOrder.step (h : WaitOrder s.sched g) (hinv : s.Inv) {a : SchedOp}
    (hadmits : s.admits a = true) (hexec : s.exec a = some s') :
    WaitOrder s'.sched (g.note s a) := by
  have hranks := ranksKept_step hinv hadmits hexec
  by_cases hplace : ∃ e ticks, a = .vTaskPlaceOnEventList e ticks
  · obtain ⟨e, ticks, rfl⟩ := hplace
    obtain ⟨he, hblock⟩ := Bool.and_eq_true_iff.mp hadmits
    obtain ⟨t, hcur, hyield, _⟩ := SchedSys.running_of_mayBlock hblock
    obtain ⟨σ, hσ, rfl⟩ := Option.map_eq_some_iff.mp hexec
    have hnote : g.note s (.vTaskPlaceOnEventList e ticks) =
        ⟨g.now + 1, Function.update g.since t (g.now + 1)⟩ := by
      simp [Waits.note, hcur]
    rw [hnote]
    exact h.place hinv he hcur (hinv.running t hcur hyield) hranks hσ
  · have hother : ∀ e ticks, a ≠ .vTaskPlaceOnEventList e ticks := by
      rintro e ticks rfl
      exact hplace ⟨e, ticks, rfl⟩
    rw [Waits.note_of_ne hother]
    exact h.kept hinv hranks (waitersKept_step hinv hexec hother)

end WaitOrder

/-- Every schedule keeps the order of the event lists. -/
theorem waitOrder_of_reach {x : SchedSys × Waits} (h : waitingScheduler.Reach x) :
    WaitOrder x.1.sched x.2 := by
  refine h.invariant (P := fun x => WaitOrder x.1.sched x.2) ?_ ?_
  · refine ⟨⟨?_, ?_⟩, fun _ => Nat.le_refl _, ?_⟩
    · intro t ht
      exact absurd ht (Nat.not_lt_zero t)
    · intro t ht
      exact absurd ht (Nat.not_lt_zero t)
    · intro e _
      exact List.Pairwise.nil
  · intro x a y hreach horder hstep
    obtain ⟨⟨hadmits, hexec⟩, hnote⟩ := Machine.ghost_step.mp hstep
    rw [hnote]
    exact horder.step (scheduler_inv hreach.of_ghost) hadmits hexec

/-! ### Which waiter is woken -/

/-- Priority inheritance has raised `t` above its base priority. -/
def Sched.Raised (σ : Sched) (t : TaskId) : Prop := σ.priority t ≠ σ.basePriority t

/-- `t` is to be woken before `u`: it has the higher current priority, or the same
    and has waited longer. -/
def Precedes (σ : Sched) (g : Waits) (t u : TaskId) : Prop :=
  σ.priority u < σ.priority t ∨ σ.priority u = σ.priority t ∧ g.since t < g.since u

/-- A task that has not been raised is rightly behind those ahead of it. -/
theorem Ahead.precedes {σ : Sched} {g : Waits} {t u : TaskId} (h : Ahead σ g t u)
    (hfloor : σ.basePriority t ≤ σ.priority t) (hraised : ¬ σ.Raised u) : Precedes σ g t u := by
  have hu : σ.priority u = σ.basePriority u := not_not.mp hraised
  unfold Ahead at h
  unfold Precedes
  omega

/-- **The wake-up order.**  With a running task and a waiter on `e`,
    `xTaskRemoveFromEventList` makes exactly one waiter `w` ready, the head of the
    list.  It is the task of the highest current priority, and among those of equal
    priority the one that has waited longest, if and only if it precedes every other
    waiter that priority inheritance has raised. -/
theorem event_wake_order {s : SchedSys} {g : Waits} (h : waitingScheduler.Reach (s, g))
    {e : ListId} (he : e.isEventList) (hne : (s.sched.lists.list e).items ≠ [])
    {cur : TaskId} (hcur : s.sched.pxCurrentTCB = some cur) :
    ∃ w y σ, xTaskRemoveFromEventList e s.sched = some (y, σ) ∧
      (s.sched.lists.list e).items.head? = some (xEventListItem w) ∧
      s.sched.eventList w = some e ∧ ¬ s.sched.Ready w ∧ σ.Ready w ∧ σ.eventList w = none ∧
      (∀ u, u ≠ w → (σ.Ready u ↔ s.sched.Ready u) ∧ σ.eventList u = s.sched.eventList u) ∧
      ((∀ u, s.sched.eventList u = some e → u ≠ w → Precedes s.sched g w u) ↔
        ∀ u, s.sched.eventList u = some e → u ≠ w → s.sched.Raised u →
          Precedes s.sched g w u) := by
  have hinv := (scheduler_inv h.of_ghost).sched
  obtain ⟨y, σ, hexec, _, hwake⟩ := xTaskRemoveFromEventList_inv hinv he hcur
  have horder := waitOrder_of_reach h
  cases hwake with
  | empty hempty => exact absurd hempty hne
  | @head w _ lists _ hhead hlt hwait hready hitem =>
    refine ⟨w, _, _, hexec, hhead, hwait, hready, ?_, ?_, ?_, ?_⟩
    · simp [Sched.Ready, Sched.stateList, Sched.priority, hitem]
    · simp [Sched.eventList, hitem]
    · intro u hu
      constructor
      · simp [Sched.Ready, Sched.stateList, Sched.priority, hitem, hu]
      · simp [Sched.eventList, hitem, hu]
    · constructor
      · intro hall u hu huw _
        exact hall u hu huw
      · intro hraised u hu huw
        by_cases hr : s.sched.Raised u
        · exact hraised u hu huw hr
        · obtain ⟨rest, hrest⟩ := List.head?_eq_some_iff.mp hhead
          have hmem := (s.sched.lists.linked e (xEventListItem u)).mpr hu
          have hahead := horder.ahead e he
          rw [hrest] at hmem hahead
          have hbehind : xEventListItem u ∈ rest := by
            rcases List.mem_cons.mp hmem with heq | hmem
            · cases heq
              exact absurd rfl huw
            · exact hmem
          have hwu := (List.pairwise_cons.mp hahead).1 _ hbehind
          exact Ahead.precedes hwu (horder.ranked.floor w hlt) hr

/-- Tasks 2 and 3, of priority 3, and before them task 0, of priority 1, wait on
    one list; task 1 then raises task 0 to its own priority 2. -/
def raisedBelowSchedule : List SchedOp :=
  [.xTaskCreate ⟨true, true⟩ 1, .xTaskCreate ⟨true, true⟩ 2, .xTaskCreate ⟨true, true⟩ 3,
    .xTaskCreate ⟨true, true⟩ 3, .vTaskStartScheduler ⟨true, true⟩,
    .vTaskPlaceOnEventList (xTasksWaitingToReceive 0) portMaxDelay, .taskYIELD,
    .vTaskPlaceOnEventList (xTasksWaitingToReceive 0) portMaxDelay, .taskYIELD,
    .vTaskPlaceOnEventList (xTasksWaitingToReceive 0) portMaxDelay, .taskYIELD,
    .vTaskPriorityInherit (some 0)]

theorem event_wake_order_raised_below : ∃ s g, waitingScheduler.Reach (s, g) ∧
    (s.sched.lists.list (xTasksWaitingToReceive 0)).items =
      [xEventListItem 2, xEventListItem 3, xEventListItem 0] ∧
    s.sched.Raised 0 ∧
    ∃ w y σ, xTaskRemoveFromEventList (xTasksWaitingToReceive 0) s.sched = some (y, σ) ∧
      σ.Ready w ∧ ∀ u, s.sched.eventList u = some (xTasksWaitingToReceive 0) → u ≠ w →
        Precedes s.sched g w u := by
  obtain ⟨⟨s, g⟩, hreach, hs⟩ := waitingScheduler.exists_reach raisedBelowSchedule
    (fun x => (x.1.sched.lists.list (xTasksWaitingToReceive 0)).items =
        [xEventListItem 2, xEventListItem 3, xEventListItem 0] ∧
      x.1.sched.pxCurrentTCB = some 1 ∧ x.1.sched.tcb 0 = ⟨2, 1⟩ ∧
      x.1.sched.tcb 2 = ⟨3, 3⟩ ∧ x.1.sched.tcb 3 = ⟨3, 3⟩) (by decide +kernel)
  obtain ⟨hitems, hcur, h0, h2, h3⟩ := of_decide_eq_true hs
  dsimp only at hitems hcur h0 h2 h3
  refine ⟨s, g, hreach, hitems, ?_, ?_⟩
  · simp [Sched.Raised, Sched.priority, Sched.basePriority, h0]
  · have hne : (s.sched.lists.list (xTasksWaitingToReceive 0)).items ≠ [] := by
      rw [hitems]
      exact List.cons_ne_nil _ _
    obtain ⟨w, y, σ, hexec, hhead, _, _, hready, _, _, hiff⟩ :=
      event_wake_order hreach rfl hne hcur
    rw [hitems] at hhead
    cases hhead
    refine ⟨2, y, σ, hexec, hready, hiff.mpr ?_⟩
    intro u hu hne' hraised
    have hmem := (s.sched.lists.linked _ (xEventListItem u)).mpr hu
    rw [hitems] at hmem
    simp only [List.mem_cons, List.not_mem_nil, or_false, xEventListItem.injEq] at hmem
    rcases hmem with rfl | rfl | rfl
    · exact absurd rfl hne'
    · simp [Sched.Raised, Sched.priority, Sched.basePriority, h3] at hraised
    · left
      simp [Sched.priority, h0, h2]

/-- Task 0, of priority 1, takes a mutex and then waits for a semaphore, as does
    task 1, of priority 2.  Task 2, of priority 3, blocks on the mutex and so raises
    task 0 to 3.  Task 3 is about to give the semaphore. -/
def raisedWaiterSchedule : List Action :=
  [.xTaskCreate ⟨true, true⟩ 1, .xTaskCreate ⟨true, true⟩ 2, .xTaskCreate ⟨true, true⟩ 3,
    .xTaskCreate ⟨true, true⟩ 1, .vTaskStartScheduler ⟨true, true⟩,
    .xQueueCreateMutex (some 0), .xQueueCreateCounting (some 0) 1 0,
    .call (xSemaphoreTake 0 portMaxDelay), .resume, .resume,
    .call (xSemaphoreTake 1 portMaxDelay), .resume, .resume, .resume,
    .vTaskDelay 1, .resume,
    .call (xSemaphoreTake 1 portMaxDelay), .resume, .resume, .resume,
    .tick, .call (xSemaphoreTake 0 portMaxDelay), .resume, .resume, .resume,
    .call (xSemaphoreGive 1)]

/-- The give wakes task 1, of priority 2, while task 0 waits on the same list with
    the current priority 3. -/
theorem give_wakes_lower_priority : ∃ k k', kernel.Run kernel.init raisedWaiterSchedule k ∧
    kernel.Step k .resume k' ∧ (∃ s g, waitingScheduler.Reach (s, g) ∧ s.sched = k.sched) ∧
    k.sched.eventList 0 = some (xTasksWaitingToReceive 1) ∧ k.sched.priority 0 = 3 ∧
    k.sched.eventList 1 = some (xTasksWaitingToReceive 1) ∧ k.sched.priority 1 = 2 ∧
    (∃ y σ, xTaskRemoveFromEventList (xTasksWaitingToReceive 1) k.sched = some (y, σ) ∧
      σ.stateList 1 = some (xReadyTasksLists 2) ∧
      σ.eventList 0 = some (xTasksWaitingToReceive 1)) ∧
    k'.sched.stateList 1 = some (xReadyTasksLists 2) ∧
    k'.sched.eventList 0 = some (xTasksWaitingToReceive 1) ∧ k'.sched.priority 0 = 3 := by
  obtain ⟨k, hrun, hk⟩ := kernel.exists_run raisedWaiterSchedule
    (fun k => kernel.guard k .resume ∧
      (k.sched.eventList 0 = some (xTasksWaitingToReceive 1) ∧ k.sched.priority 0 = 3 ∧
        k.sched.eventList 1 = some (xTasksWaitingToReceive 1) ∧ k.sched.priority 1 = 2) ∧
      ((xTaskRemoveFromEventList (xTasksWaitingToReceive 1) k.sched).any fun r =>
        r.2.stateList 1 = some (xReadyTasksLists 2) ∧
          r.2.eventList 0 = some (xTasksWaitingToReceive 1)) ∧
      (k.exec .resume).any fun k' => k'.sched.stateList 1 = some (xReadyTasksLists 2) ∧
        k'.sched.eventList 0 = some (xTasksWaitingToReceive 1) ∧ k'.sched.priority 0 = 3)
    (by decide +kernel)
  obtain ⟨hguard, ⟨hwait₀, hprio₀, hwait₁, hprio₁⟩, hwake, hexec⟩ := of_decide_eq_true hk
  obtain ⟨k', hstep, hk'⟩ := Machine.exists_step hguard hexec
  obtain ⟨hready, hstill, hprio⟩ := of_decide_eq_true hk'
  obtain ⟨⟨y, σ⟩, hσ, hwoken⟩ := (Option.any_eq_true _ _).mp hwake
  obtain ⟨hreadyσ, hstillσ⟩ := of_decide_eq_true hwoken
  -- the scheduler's part of the kernel's state is a state of the scheduler's runs
  obtain ⟨s, hreach, hschedules⟩ := scheduler_reach_of_kernel (Machine.Reach.init.run hrun)
  obtain ⟨g, hghost⟩ := hreach.exists_ghost ⟨0, fun _ => 0⟩ Waits.note
  exact ⟨k, k', hrun, hstep, ⟨s, g, hghost, hschedules.sched⟩, hwait₀, hprio₀, hwait₁, hprio₁,
    ⟨y, σ, hσ, hreadyσ, hstillσ⟩, hready, hstill, hprio⟩

end FlintRTOS
