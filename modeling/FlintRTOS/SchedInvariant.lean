import FlintRTOS.TasksSpec

/-!
# The scheduler invariant

`Sched.Inv` is what every function of `tasks.c` keeps: each task's state item is
in the ready list of its current priority, in the delayed list or in the
suspended list, its event item is free whenever it is ready, items name their
owners, `uxTopReadyPriority` bounds every non-empty ready list, and the lists
filled in order are ascending.

The operations move one task at a time.  The theorems below say, for each kind
of move, that the invariant survives it; `TaskOk.transfer` carries the tasks
that the move does not touch.
-/

namespace FlintRTOS

open ListId ItemId

/-- The list that holds the state item of `t`. -/
def Sched.stateList (s : Sched) (t : TaskId) : Option ListId :=
  (s.lists.item (xStateListItem t)).pxContainer

/-- The list that holds the event item of `t`. -/
def Sched.eventList (s : Sched) (t : TaskId) : Option ListId :=
  (s.lists.item (xEventListItem t)).pxContainer

/-- The value of the state item: the wake time while `t` is delayed. -/
def Sched.wakeTime (s : Sched) (t : TaskId) : TickType :=
  (s.lists.item (xStateListItem t)).xItemValue

def Sched.priority (s : Sched) (t : TaskId) : Nat := (s.tcb t).uxPriority

def Sched.basePriority (s : Sched) (t : TaskId) : Nat := (s.tcb t).uxBasePriority

def Sched.Ready (s : Sched) (t : TaskId) : Prop :=
  s.stateList t = some (xReadyTasksLists (s.priority t))

structure Sched.TaskOk (s : Sched) (t : TaskId) : Prop where
  state : s.Ready t ∨ s.stateList t = some xDelayedTaskList ∨
    s.stateList t = some xSuspendedTaskList
  event : ∀ l, s.eventList t = some l → l.isEventList
  ready_free : s.Ready t → s.eventList t = none
  owner_state : (s.lists.item (xStateListItem t)).pvOwner = some t
  owner_event : (s.lists.item (xEventListItem t)).pvOwner = some t
  priority_lt : s.priority t < configMaxPriorities
  base_lt : s.basePriority t < configMaxPriorities
  top : s.Ready t → s.priority t ≤ s.uxTopReadyPriority

structure Sched.Inv (s : Sched) : Prop where
  tasks : ∀ t < s.uxCurrentNumberOfTasks, s.TaskOk t
  fresh : ∀ t, s.uxCurrentNumberOfTasks ≤ t → s.stateList t = none ∧ s.eventList t = none
  top_lt : s.uxTopReadyPriority < configMaxPriorities
  ordered : Ordered s.lists
  current : ∀ t, s.pxCurrentTCB = some t → t < s.uxCurrentNumberOfTasks
  idle : ∀ i, s.xIdle = some i → i < s.uxCurrentNumberOfTasks ∧ s.Ready i
  initialised : s.xListsInitialised = false → s.uxCurrentNumberOfTasks = 0

theorem Sched.boot_inv : Sched.boot.Inv where
  tasks := by
    intro t ht
    simp [Sched.boot] at ht
  fresh := by
    intro t _
    exact ⟨rfl, rfl⟩
  top_lt := by decide
  ordered := by
    intro l _
    simp [Sched.boot, ListStore.Ascending, ListStore.empty]
  current := by
    intro t ht
    simp [Sched.boot] at ht
  idle := by
    intro i hi
    simp [Sched.boot] at hi
  initialised := fun _ => rfl

variable {s s' : Sched} {t : TaskId} {l : ListId} {lists : Lists} {p : Nat} {i : ItemId}

/-- A task whose items and control block a move leaves alone stays in order. -/
theorem Sched.TaskOk.transfer (h : s.TaskOk t)
    (hstate : s'.lists.item (xStateListItem t) = s.lists.item (xStateListItem t))
    (hevent : s'.lists.item (xEventListItem t) = s.lists.item (xEventListItem t))
    (htcb : s'.tcb t = s.tcb t) (htop : s.uxTopReadyPriority ≤ s'.uxTopReadyPriority) :
    s'.TaskOk t := by
  have hready : s'.Ready t ↔ s.Ready t := by
    simp only [Sched.Ready, Sched.stateList, Sched.priority, hstate, htcb]
  refine ⟨?_, ?_, ?_, ?_, ?_, ?_, ?_, ?_⟩
  · rw [hready]
    simpa only [Sched.stateList, hstate] using h.state
  · simpa only [Sched.eventList, hevent] using h.event
  · rw [hready]
    simpa only [Sched.eventList, hevent] using h.ready_free
  · rw [hstate]; exact h.owner_state
  · rw [hevent]; exact h.owner_event
  · simpa only [Sched.priority, htcb] using h.priority_lt
  · simpa only [Sched.basePriority, htcb] using h.base_lt
  · intro hr
    have := h.top (hready.mp hr)
    simp only [Sched.priority, htcb] at this ⊢
    omega

theorem Sched.Inv.stateList_isSome (h : s.Inv) (ht : t < s.uxCurrentNumberOfTasks) :
    ∃ l, s.stateList t = some l := by
  rcases (h.tasks t ht).state with hs | hs | hs
  · exact ⟨_, hs⟩
  · exact ⟨_, hs⟩
  · exact ⟨_, hs⟩

/-- The three lists that a task's state item can be on. -/
theorem Sched.TaskOk.stateList_cases (h : s.TaskOk t) (ht : s.stateList t = some l) :
    l = xReadyTasksLists (s.priority t) ∨ l = xDelayedTaskList ∨ l = xSuspendedTaskList := by
  rcases h.state with hs | hs | hs
  · exact .inl (Option.some.inj (ht.symm.trans hs))
  · exact .inr (.inl (Option.some.inj (ht.symm.trans hs)))
  · exact .inr (.inr (Option.some.inj (ht.symm.trans hs)))

theorem Sched.Inv.lt_of_stateList (h : s.Inv) (ht : s.stateList t = some l) :
    t < s.uxCurrentNumberOfTasks := by
  by_contra hge
  rw [(h.fresh t (Nat.not_lt.mp hge)).1] at ht
  cases ht

theorem Sched.Inv.lt_of_eventList (h : s.Inv) (ht : s.eventList t = some l) :
    t < s.uxCurrentNumberOfTasks := by
  by_contra hge
  rw [(h.fresh t (Nat.not_lt.mp hge)).2] at ht
  cases ht

/-- What is the same before and after a move of the single task `w`. -/
structure MovesOnly (w : TaskId) (s s' : Sched) : Prop where
  state : ∀ t, t ≠ w → s'.lists.item (xStateListItem t) = s.lists.item (xStateListItem t)
  event : ∀ t, t ≠ w → s'.lists.item (xEventListItem t) = s.lists.item (xEventListItem t)
  tcb : ∀ t, t ≠ w → s'.tcb t = s.tcb t
  number : s'.uxCurrentNumberOfTasks = s.uxCurrentNumberOfTasks
  current : s'.pxCurrentTCB = s.pxCurrentTCB
  idle : s'.xIdle = s.xIdle
  initialised : s'.xListsInitialised = s.xListsInitialised

theorem Sched.Inv.move (h : s.Inv) {w : TaskId} (hw : w < s.uxCurrentNumberOfTasks)
    (hmove : MovesOnly w s s') (hok : s'.TaskOk w)
    (htop : s.uxTopReadyPriority ≤ s'.uxTopReadyPriority)
    (htop_lt : s'.uxTopReadyPriority < configMaxPriorities) (hord : Ordered s'.lists)
    (hidle : s.xIdle = some w → s'.Ready w) : s'.Inv := by
  refine ⟨?_, ?_, htop_lt, hord, ?_, ?_, ?_⟩
  · intro t ht
    by_cases heq : t = w
    · rw [heq]; exact hok
    · rw [hmove.number] at ht
      exact (h.tasks t ht).transfer (hmove.state t heq) (hmove.event t heq)
        (hmove.tcb t heq) htop
  · intro t ht
    rw [hmove.number] at ht
    have hne : t ≠ w := by
      rintro rfl
      exact Nat.not_lt.mpr ht hw
    simpa only [Sched.stateList, Sched.eventList, hmove.state t hne, hmove.event t hne]
      using h.fresh t ht
  · rw [hmove.current, hmove.number]
    exact h.current
  · intro i hi
    rw [hmove.idle] at hi
    obtain ⟨hlt, hready⟩ := h.idle i hi
    refine ⟨by rw [hmove.number]; exact hlt, ?_⟩
    by_cases heq : i = w
    · subst heq; exact hidle hi
    · simpa only [Sched.Ready, Sched.stateList, Sched.priority, hmove.state i heq,
        hmove.tcb i heq] using hready
  · rw [hmove.initialised, hmove.number]
    exact h.initialised

/-! ### The moves -/

theorem Sched.Inv.wake (h : s.Inv) {w : TaskId} (hw : w < s.uxCurrentNumberOfTasks)
    (hitem : lists.item = Items.wake s.lists.item w (s.tcb w).uxPriority) (hord : Ordered lists) :
    ((s.setTopReadyPriority (max s.uxTopReadyPriority (s.tcb w).uxPriority)).setLists
      lists).Inv := by
  have hwok := h.tasks w hw
  have hready : ((s.setTopReadyPriority (max s.uxTopReadyPriority
      (s.tcb w).uxPriority)).setLists lists).Ready w := by
    simp [Sched.Ready, Sched.stateList, Sched.priority, hitem]
  refine h.move hw ⟨?_, ?_, ?_, rfl, rfl, rfl, rfl⟩ ?_ (Nat.le_max_left _ _) ?_ hord
    (fun _ => hready)
  · intro t ht
    simp [hitem, ht]
  · intro t ht
    simp [hitem, ht]
  · intro t _
    rfl
  · refine ⟨Or.inl hready, ?_, ?_, ?_, ?_, hwok.priority_lt, hwok.base_lt, ?_⟩
    · intro l hl
      simp [Sched.eventList, hitem] at hl
    · intro _
      simp [Sched.eventList, hitem]
    · simp [hitem]
    · simpa [hitem] using hwok.owner_event
    · intro _
      exact Nat.le_max_right _ _
  · exact Nat.max_lt.mpr ⟨h.top_lt, hwok.priority_lt⟩

theorem Sched.Inv.reprioritise (h : s.Inv) (ht : t < s.uxCurrentNumberOfTasks)
    (hp : p < configMaxPriorities) (hexec : prvReprioritise t p s = some s') : s'.Inv := by
  have htok := h.tasks t ht
  by_cases hready : s.Ready t
  · -- ready: the task moves to the ready list of its new priority
    obtain ⟨lists, hres, hitem, hord⟩ := prvReprioritise_of_ready (p := p) hready
    rw [hexec] at hres
    cases hres
    have hready' : (((s.setPriority t p).setTopReadyPriority
        (max s.uxTopReadyPriority p)).setLists lists).Ready t := by
      simp [Sched.Ready, Sched.stateList, Sched.priority, hitem]
    refine h.move ht ⟨?_, ?_, ?_, rfl, rfl, rfl, rfl⟩ ?_ (Nat.le_max_left _ _) ?_
      (hord h.ordered) (fun _ => hready')
    · intro u hu
      simp [hitem, hu]
    · intro u _
      simp [hitem]
    · intro u hu
      simp [hu]
    · refine ⟨Or.inl hready', ?_, ?_, ?_, ?_, ?_, ?_, ?_⟩
      · intro l hl
        refine htok.event l ?_
        simpa [Sched.eventList, hitem] using hl
      · intro _
        simpa [Sched.eventList, hitem] using htok.ready_free hready
      · simp [hitem]
      · simpa [hitem] using htok.owner_event
      · simpa [Sched.priority] using hp
      · simpa [Sched.basePriority] using htok.base_lt
      · intro _
        simp only [Sched.priority, Sched.setLists_tcb, Sched.setTopReadyPriority_tcb,
          Sched.setPriority_tcb, Function.update_self, Sched.setLists_uxTopReadyPriority,
          Sched.setTopReadyPriority_uxTopReadyPriority]
        exact Nat.le_max_right _ _
    · exact Nat.max_lt.mpr ⟨h.top_lt, hp⟩
  · -- blocked: only the priority is recorded
    rw [prvReprioritise_of_not_ready hready] at hexec
    cases hexec
    have hblocked : s.stateList t = some xDelayedTaskList ∨
        s.stateList t = some xSuspendedTaskList := by
      rcases htok.state with hr | hb
      · exact absurd hr hready
      · exact hb
    have hready' : ¬ (s.setPriority t p).Ready t := by
      intro hr
      simp only [Sched.Ready, Sched.stateList, Sched.setPriority_lists] at hr
      rcases hblocked with hb | hb
      · rw [Sched.stateList, hr] at hb; cases hb
      · rw [Sched.stateList, hr] at hb; cases hb
    refine h.move ht ⟨?_, ?_, ?_, rfl, rfl, rfl, rfl⟩ ?_ (Nat.le_refl _) h.top_lt h.ordered ?_
    · intro u _
      rfl
    · intro u _
      rfl
    · intro u hu
      simp [hu]
    · refine ⟨Or.inr hblocked, htok.event, fun hr => absurd hr hready', htok.owner_state,
        htok.owner_event, ?_, ?_, fun hr => absurd hr hready'⟩
      · simpa [Sched.priority] using hp
      · simpa [Sched.basePriority] using htok.base_lt
    · intro hi
      exact absurd (h.idle t hi).2 hready

/-- A state item in the delayed or suspended list is in no ready list. -/
theorem not_ready_of_blocked
    (h : s.stateList t = some xDelayedTaskList ∨ s.stateList t = some xSuspendedTaskList) :
    ¬ s.Ready t := by
  intro hr
  rcases h with h | h
  · rw [Sched.Ready, h] at hr; cases hr
  · rw [Sched.Ready, h] at hr; cases hr

/-- The running task leaves its ready list for the delayed or suspended list,
    with or without linking its event item. -/
theorem Sched.Inv.block (h : s.Inv) (ht : t < s.uxCurrentNumberOfTasks) (hidle : s.xIdle ≠ some t)
    (hother : ∀ u, u ≠ t → lists.item (xStateListItem u) = s.lists.item (xStateListItem u) ∧
      lists.item (xEventListItem u) = s.lists.item (xEventListItem u))
    (hstate : (lists.item (xStateListItem t)).pxContainer = some xDelayedTaskList ∨
      (lists.item (xStateListItem t)).pxContainer = some xSuspendedTaskList)
    (hevent : ∀ l, (lists.item (xEventListItem t)).pxContainer = some l → l.isEventList)
    (howner : (lists.item (xStateListItem t)).pvOwner = some t ∧
      (lists.item (xEventListItem t)).pvOwner = some t) (hord : Ordered lists) :
    (s.setLists lists).Inv := by
  have htok := h.tasks t ht
  have hnot : ¬ (s.setLists lists).Ready t := not_ready_of_blocked hstate
  refine h.move ht ⟨fun u hu => (hother u hu).1, fun u hu => (hother u hu).2, fun _ _ => rfl,
    rfl, rfl, rfl, rfl⟩ ?_ (Nat.le_refl _) h.top_lt hord (fun hi => absurd hi hidle)
  exact ⟨Or.inr hstate, hevent, fun hr => absurd hr hnot, howner.1, howner.2,
    htok.priority_lt, htok.base_lt, fun hr => absurd hr hnot⟩

theorem Sched.Inv.create (h : s.Inv) (hp : p < configMaxPriorities)
    (hitem : lists.item = Items.create s.lists.item s.uxCurrentNumberOfTasks p)
    (hord : Ordered lists) :
    (((s.setListsInitialised.addTask p).setTopReadyPriority
      (max s.uxTopReadyPriority p)).setLists lists).Inv := by
  have hother : ∀ u, u ≠ s.uxCurrentNumberOfTasks →
      lists.item (xStateListItem u) = s.lists.item (xStateListItem u) ∧
      lists.item (xEventListItem u) = s.lists.item (xEventListItem u) := by
    intro u hu
    simp [hitem, Items.create, hu]
  refine ⟨?_, ?_, ?_, hord, ?_, ?_, ?_⟩
  · intro t ht
    by_cases heq : t = s.uxCurrentNumberOfTasks
    · subst heq
      refine ⟨Or.inl ?_, ?_, ?_, ?_, ?_, ?_, ?_, ?_⟩
      · simp [Sched.Ready, Sched.stateList, Sched.priority, hitem, Items.create]
      · intro l hl
        simp [Sched.eventList, hitem, Items.create] at hl
      · intro _
        simp [Sched.eventList, hitem, Items.create]
      · simp [hitem, Items.create]
      · simp [hitem, Items.create]
      · simpa [Sched.priority] using hp
      · simpa [Sched.basePriority] using hp
      · intro _
        simp only [Sched.priority, Sched.setLists_tcb, Sched.setTopReadyPriority_tcb,
          Sched.addTask_tcb, Sched.setListsInitialised_uxCurrentNumberOfTasks,
          Function.update_self, Sched.setLists_uxTopReadyPriority,
          Sched.setTopReadyPriority_uxTopReadyPriority]
        exact Nat.le_max_right _ _
    · have hlt : t < s.uxCurrentNumberOfTasks :=
        Nat.lt_of_le_of_ne (Nat.le_of_lt_succ ht) heq
      refine (h.tasks t hlt).transfer (hother t heq).1 (hother t heq).2 ?_
        (Nat.le_max_left _ _)
      simp [heq]
  · intro t ht
    have hle : s.uxCurrentNumberOfTasks ≤ t := Nat.le_of_succ_le ht
    have hne : t ≠ s.uxCurrentNumberOfTasks := by
      rintro rfl
      exact Nat.not_succ_le_self _ ht
    simpa only [Sched.stateList, Sched.eventList, Sched.setLists_lists, (hother t hne).1,
      (hother t hne).2] using h.fresh t hle
  · exact Nat.max_lt.mpr ⟨h.top_lt, hp⟩
  · intro t ht
    simp only [Sched.setLists_pxCurrentTCB, Sched.setTopReadyPriority_pxCurrentTCB,
      Sched.addTask_pxCurrentTCB, Sched.setListsInitialised_pxCurrentTCB,
      Sched.setListsInitialised_uxCurrentNumberOfTasks] at ht
    split at ht
    · cases ht
      exact Nat.lt_succ_self _
    · exact Nat.lt_succ_of_lt (h.current t ht)
  · intro i hi
    obtain ⟨hlt, hready⟩ := h.idle i hi
    have hne : i ≠ s.uxCurrentNumberOfTasks := Nat.ne_of_lt hlt
    refine ⟨Nat.lt_succ_of_lt hlt, ?_⟩
    simpa [Sched.Ready, Sched.stateList, Sched.priority, (hother i hne).1, hne] using hready
  · intro hfalse
    simp at hfalse

/-- The tick count, the scheduler flag and the inheritance switch do not occur in
    the invariant, and a failed creation keeps every item. -/
theorem Sched.Inv.congr (h : s.Inv) (hitem : s'.lists.item = s.lists.item) (hord : Ordered s'.lists)
    (htcb : s'.tcb = s.tcb) (htop : s'.uxTopReadyPriority = s.uxTopReadyPriority)
    (hnumber : s'.uxCurrentNumberOfTasks = s.uxCurrentNumberOfTasks)
    (hcur : s'.pxCurrentTCB = s.pxCurrentTCB) (hidle : s'.xIdle = s.xIdle)
    (hinit : s'.xListsInitialised = false → s.xListsInitialised = false) : s'.Inv := by
  refine ⟨?_, ?_, ?_, hord, ?_, ?_, ?_⟩
  · intro t ht
    rw [hnumber] at ht
    exact (h.tasks t ht).transfer (by rw [hitem]) (by rw [hitem]) (by rw [htcb])
      (Nat.le_of_eq htop.symm)
  · intro t ht
    rw [hnumber] at ht
    simpa only [Sched.stateList, Sched.eventList, hitem] using h.fresh t ht
  · rw [htop]; exact h.top_lt
  · rw [hcur, hnumber]; exact h.current
  · rw [hidle, hnumber]
    simpa only [Sched.Ready, Sched.stateList, Sched.priority, hitem, htcb] using h.idle
  · intro hfalse
    rw [hnumber]
    exact h.initialised (hinit hfalse)

/-! ### What the lists contain -/

theorem Sched.Inv.mem_ready (h : s.Inv) (hi : i ∈ (s.lists.list (xReadyTasksLists p)).items) :
    ∃ t, i = xStateListItem t ∧ t < s.uxCurrentNumberOfTasks ∧ s.Ready t ∧
      s.priority t = p := by
  have hc := (s.lists.linked _ i).mp hi
  cases i with
  | xStateListItem t =>
    have hlt := h.lt_of_stateList hc
    rcases (h.tasks t hlt).stateList_cases hc with hp | hp | hp
    · cases hp
      exact ⟨t, rfl, hlt, hc, rfl⟩
    · cases hp
    · cases hp
  | xEventListItem t =>
    have hevent := (h.tasks t (h.lt_of_eventList hc)).event _ hc
    cases hevent

theorem Sched.Inv.mem_delayed (h : s.Inv) (hi : i ∈ (s.lists.list xDelayedTaskList).items) :
    ∃ t, i = xStateListItem t ∧ t < s.uxCurrentNumberOfTasks ∧
      s.stateList t = some xDelayedTaskList := by
  have hc := (s.lists.linked _ i).mp hi
  cases i with
  | xStateListItem t => exact ⟨t, rfl, h.lt_of_stateList hc, hc⟩
  | xEventListItem t =>
    have hevent := (h.tasks t (h.lt_of_eventList hc)).event _ hc
    cases hevent

theorem Sched.Inv.mem_event (h : s.Inv) {e : ListId} (he : e.isEventList)
    (hi : i ∈ (s.lists.list e).items) :
    ∃ t, i = xEventListItem t ∧ t < s.uxCurrentNumberOfTasks ∧ s.eventList t = some e ∧
      ¬ s.Ready t := by
  have hc := (s.lists.linked _ i).mp hi
  cases i with
  | xStateListItem t =>
    rcases (h.tasks t (h.lt_of_stateList hc)).stateList_cases hc with rfl | rfl | rfl
    · cases he
    · cases he
    · cases he
  | xEventListItem t =>
    refine ⟨t, rfl, h.lt_of_eventList hc, hc, ?_⟩
    intro hr
    have hfree := (h.tasks t (h.lt_of_eventList hc)).ready_free hr
    rw [Sched.eventList, hc] at hfree
    cases hfree

theorem mem_ready_list (h : s.Ready t) :
    xStateListItem t ∈ (s.lists.list (xReadyTasksLists (s.priority t))).items :=
  (s.lists.linked _ _).mpr h

/-! ### The context switch -/

theorem Sched.Inv.ready_of_switch (h : s.Inv) (ht : (vTaskSwitchContext s).pxCurrentTCB = some t) :
    t < s.uxCurrentNumberOfTasks ∧ s.Ready t := by
  rw [vTaskSwitchContext_pxCurrentTCB] at ht
  by_cases hnil : (s.lists.list (xReadyTasksLists
      (prvScanReady s.lists s.uxTopReadyPriority))).items = []
  · -- no ready task: the sentinel has no owner
    simp [ListStore.listGetOwnerOfNextEntry, CursorRing.RingList.advance, hnil] at ht
  · obtain ⟨i, hi, howner⟩ := ListStore.owner_listGetOwnerOfNextEntry hnil
    obtain ⟨u, rfl, hu, hready, _⟩ := h.mem_ready hi
    rw [howner, (h.tasks u hu).owner_state] at ht
    cases ht
    exact ⟨hu, hready⟩

theorem Sched.Inv.switch (h : s.Inv) : (vTaskSwitchContext s).Inv := by
  obtain ⟨hle, habove, _⟩ := prvScanReady_spec s.lists s.uxTopReadyPriority
  refine ⟨?_, h.fresh, ?_, ?_, ?_, h.idle, h.initialised⟩
  · intro t ht
    have htok := h.tasks t ht
    refine ⟨htok.state, htok.event, htok.ready_free, htok.owner_state, htok.owner_event,
      htok.priority_lt, htok.base_lt, ?_⟩
    -- a ready list above the new top would have stopped the scan earlier
    intro hr
    by_contra hlt
    have hnil := habove (s.priority t) (Nat.not_le.mp hlt) (htok.top hr)
    have hmem := mem_ready_list (s := s) (t := t) hr
    rw [hnil] at hmem
    cases hmem
  · exact Nat.lt_of_le_of_lt hle h.top_lt
  · intro l hl
    have := h.ordered l hl
    simpa only [ListStore.Ascending, vTaskSwitchContext_lists,
      ListStore.items_listGetOwnerOfNextEntry, ListStore.item_listGetOwnerOfNextEntry]
      using this
  · intro t ht
    exact (h.ready_of_switch ht).1

/-- With a ready task at hand the switch selects one of maximal priority. -/
theorem Sched.Inv.switch_selects (h : s.Inv) {r : TaskId} (hr : r < s.uxCurrentNumberOfTasks)
    (hready : s.Ready r) :
    ∃ t, (vTaskSwitchContext s).pxCurrentTCB = some t ∧ t < s.uxCurrentNumberOfTasks ∧
      s.Ready t ∧ ∀ u, u < s.uxCurrentNumberOfTasks → s.Ready u →
        s.priority u ≤ s.priority t := by
  obtain ⟨_, habove, hfound⟩ := prvScanReady_spec s.lists s.uxTopReadyPriority
  have hbound : ∀ u, u < s.uxCurrentNumberOfTasks → s.Ready u →
      s.priority u ≤ prvScanReady s.lists s.uxTopReadyPriority := by
    intro u hu hru
    by_contra hlt
    have hnil := habove (s.priority u) (Nat.not_le.mp hlt) ((h.tasks u hu).top hru)
    have hmem := mem_ready_list hru
    rw [hnil] at hmem
    cases hmem
  -- the scan cannot stop on an empty list: `r` is in one not above the stop
  have hne : (s.lists.list (xReadyTasksLists
      (prvScanReady s.lists s.uxTopReadyPriority))).items ≠ [] := by
    rcases hfound with hzero | hne
    · have hpr : s.priority r = prvScanReady s.lists s.uxTopReadyPriority := by
        have := hbound r hr hready
        omega
      rw [← hpr]
      exact List.ne_nil_of_mem (mem_ready_list hready)
    · exact hne
  obtain ⟨i, hi, howner⟩ := ListStore.owner_listGetOwnerOfNextEntry hne
  obtain ⟨t, rfl, ht, hrt, hprio⟩ := h.mem_ready hi
  refine ⟨t, ?_, ht, hrt, ?_⟩
  · rw [vTaskSwitchContext_pxCurrentTCB, howner, (h.tasks t ht).owner_state]
  · intro u hu hru
    rw [hprio]
    exact hbound u hu hru

end FlintRTOS
