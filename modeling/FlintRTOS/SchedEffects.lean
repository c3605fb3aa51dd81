import FlintRTOS.SchedTick

/-!
# The effect of each scheduler call

Under the invariant no scheduler function faults, and each keeps the invariant.
What else a caller may rely on is stated once here, as a relation between the
states before and after the call: `EventWake` for the wake-up of a waiter,
`Reprioritised` for a priority change, `Blocked` for the two ways of going to
sleep.  The queue code is verified against these relations alone.
-/

namespace FlintRTOS

open ListId ItemId

/-! ### Creation -/

/-- The lists are free before the first creation, and the next task's items are
    always free. -/
theorem Sched.Inv.free {σ : Sched} (h : σ.Inv) :
    (σ.xListsInitialised = false → ∀ i, (σ.lists.item i).pxContainer = none) ∧
      (σ.lists.item (xStateListItem σ.uxCurrentNumberOfTasks)).pxContainer = none ∧
      (σ.lists.item (xEventListItem σ.uxCurrentNumberOfTasks)).pxContainer = none := by
  obtain ⟨hstate, hevent⟩ := h.fresh _ (Nat.le_refl σ.uxCurrentNumberOfTasks)
  refine ⟨?_, hstate, hevent⟩
  intro hinit i
  have hzero := h.initialised hinit
  cases i with
  | xStateListItem t => exact (h.fresh t (hzero ▸ Nat.zero_le t)).1
  | xEventListItem t => exact (h.fresh t (hzero ▸ Nat.zero_le t)).2

/-- Tasks may have been added; the ones that existed are as before. -/
structure Created (σ σ' : Sched) : Prop where
  inv : σ'.Inv
  number : σ.uxCurrentNumberOfTasks ≤ σ'.uxCurrentNumberOfTasks
  state : ∀ t, t < σ.uxCurrentNumberOfTasks →
    σ'.lists.item (xStateListItem t) = σ.lists.item (xStateListItem t)
  event : ∀ t, t < σ.uxCurrentNumberOfTasks →
    σ'.lists.item (xEventListItem t) = σ.lists.item (xEventListItem t)
  tcb : ∀ t, t < σ.uxCurrentNumberOfTasks → σ'.tcb t = σ.tcb t
  added : ∀ t, σ.uxCurrentNumberOfTasks ≤ t → t < σ'.uxCurrentNumberOfTasks →
    σ'.Ready t ∧ σ'.priority t = σ'.basePriority t
  current : σ'.pxCurrentTCB = σ.pxCurrentTCB ∨ σ.pxCurrentTCB = none ∧
    σ'.pxCurrentTCB = some σ.uxCurrentNumberOfTasks
  tick : σ'.xTickCount = σ.xTickCount
  inherit : σ'.xInheritEnabled = σ.xInheritEnabled
  idle : ∀ t, t < σ.uxCurrentNumberOfTasks → σ.xIdle ≠ some t → σ'.xIdle ≠ some t

section Created

variable {σ σ' : Sched}

theorem Created.ready (h : Created σ σ') (hinv : σ.Inv) {t : TaskId} (ht : σ.Ready t) :
    σ'.Ready t := by
  have hlt := hinv.lt_of_stateList ht
  simpa only [Sched.Ready, Sched.stateList, Sched.priority, h.state t hlt, h.tcb t hlt] using ht

theorem Created.running (h : Created σ σ') {t : TaskId} (ht : σ'.pxCurrentTCB = some t) :
    σ.pxCurrentTCB = some t ∨ σ'.Ready t := by
  rcases h.current with hcur | ⟨_, hnew⟩
  · exact Or.inl (hcur ▸ ht)
  · cases hnew.symm.trans ht
    exact Or.inr (h.added _ (Nat.le_refl _) (h.inv.current _ hnew)).1

theorem Created.eventList (h : Created σ σ') (hinv : σ.Inv) (t : TaskId) :
    σ'.eventList t = σ.eventList t := by
  by_cases hlt : t < σ.uxCurrentNumberOfTasks
  · simp only [Sched.eventList, h.event t hlt]
  · have hle := Nat.not_lt.mp hlt
    rw [(hinv.fresh t hle).2]
    by_cases hlt' : t < σ'.uxCurrentNumberOfTasks
    · exact (h.inv.tasks t hlt').ready_free (h.added t hle hlt').1
    · exact (h.inv.fresh t (Nat.not_lt.mp hlt')).2

end Created

theorem xTaskCreate_inv {σ : Sched} (h : σ.Inv) (memory : TaskMemory) (p : Nat) :
    ∃ r σ', xTaskCreate memory p σ = some (r, σ') ∧ Created σ σ' ∧
      (r = pdPass → σ.uxCurrentNumberOfTasks < σ'.uxCurrentNumberOfTasks) := by
  obtain ⟨hfree, hstate, hevent⟩ := h.free
  obtain ⟨lists, hord, hcase⟩ := xTaskCreate_spec memory p hfree hstate hevent
  rcases hcase with ⟨_, hexec, hitem⟩ | ⟨_, hexec, hitem⟩
  · refine ⟨_, _, hexec, ⟨h.create (clampPriority_lt p) hitem (hord h.ordered),
      Nat.le_succ _, ?_, ?_, ?_, ?_, ?_, rfl, rfl, fun _ _ hne => hne⟩,
      fun _ => Nat.lt_succ_self _⟩
    · intro t ht
      simp [hitem, Items.create, Nat.ne_of_lt ht]
    · intro t ht
      simp [hitem, Items.create, Nat.ne_of_lt ht]
    · intro t ht
      simp [Nat.ne_of_lt ht]
    · intro t hle hlt
      have heq : t = σ.uxCurrentNumberOfTasks := Nat.le_antisymm (Nat.le_of_lt_succ hlt) hle
      subst heq
      simp [Sched.Ready, Sched.stateList, Sched.priority, Sched.basePriority, hitem,
        Items.create]
    · cases hcur : σ.pxCurrentTCB with
      | none => exact Or.inr ⟨rfl, by simp [hcur]⟩
      | some c => exact Or.inl (by simp [hcur])
  · refine ⟨_, _, hexec, ⟨?_, Nat.le_refl _, ?_, ?_, ?_, ?_, Or.inl rfl, rfl, rfl,
      fun _ _ hne => hne⟩, ?_⟩
    · refine h.congr hitem (hord h.ordered) rfl rfl rfl rfl rfl ?_
      intro hfalse
      simp at hfalse
    · intro t _
      simp [hitem]
    · intro t _
      simp [hitem]
    · intro t _
      rfl
    · intro t hle hlt
      exact absurd hlt (Nat.not_lt.mpr hle)
    · intro hr
      exact absurd hr (by decide)

/-- `vTaskStartScheduler` runs before the first tick, so clearing the tick count
    changes nothing. -/
theorem vTaskStartScheduler_inv {σ : Sched} (h : σ.Inv) (memory : TaskMemory)
    (htick : σ.xTickCount = 0) :
    ∃ σ', vTaskStartScheduler memory σ = some σ' ∧ Created σ σ' := by
  obtain ⟨r, σ₁, hexec, hc, hpass⟩ := xTaskCreate_inv h memory 0
  refine ⟨σ₁.started (if r = pdPass then some σ.uxCurrentNumberOfTasks else none), ?_, ?_⟩
  · rw [vTaskStartScheduler, hexec]
    rfl
  · have hinv := hc.inv
    refine ⟨⟨?_, hinv.fresh, hinv.top_lt, hinv.ordered, hinv.current, ?_, hinv.initialised⟩,
      hc.number, hc.state, hc.event, hc.tcb, hc.added, hc.current, htick.symm, hc.inherit, ?_⟩
    · intro t ht
      exact (hinv.tasks t ht).transfer rfl rfl rfl (Nat.le_refl _)
    · -- the handle is set only when the creation succeeded
      intro i hi
      rw [Sched.started_xIdle] at hi
      split at hi
      · rename_i hr
        cases hi
        exact ⟨hpass hr, (hc.added _ (Nat.le_refl _) (hpass hr)).1⟩
      · cases hi
    · intro t ht _ hidle
      rw [Sched.started_xIdle] at hidle
      split at hidle
      · cases hidle
        exact Nat.lt_irrefl _ ht
      · cases hidle

/-! ### Waking the first waiter -/

/-- `xTaskRemoveFromEventList` on `e`: nothing when the list is empty, otherwise
    its head is taken off both its lists and made ready. -/
inductive EventWake (e : ListId) (σ : Sched) : Bool → Sched → Prop where
  | empty (hempty : (σ.lists.list e).items = []) : EventWake e σ false σ
  | head {w cur : TaskId} {lists : Lists} (hcur : σ.pxCurrentTCB = some cur)
      (hhead : (σ.lists.list e).items.head? = some (xEventListItem w))
      (hlt : w < σ.uxCurrentNumberOfTasks) (hwait : σ.eventList w = some e)
      (hready : ¬ σ.Ready w)
      (hitem : lists.item = Items.wake σ.lists.item w (σ.tcb w).uxPriority) :
      EventWake e σ (decide ((σ.tcb w).uxPriority > (σ.tcb cur).uxPriority))
        ((σ.setTopReadyPriority (max σ.uxTopReadyPriority (σ.tcb w).uxPriority)).setLists
          lists)

theorem xTaskRemoveFromEventList_inv {σ : Sched} (h : σ.Inv) {e : ListId}
    (he : e.isEventList) {cur : TaskId} (hcur : σ.pxCurrentTCB = some cur) :
    ∃ y σ', xTaskRemoveFromEventList e σ = some (y, σ') ∧ σ'.Inv ∧ EventWake e σ y σ' := by
  cases hitems : (σ.lists.list e).items with
  | nil => exact ⟨_, _, xTaskRemoveFromEventList_empty hitems, h, .empty hitems⟩
  | cons i rest =>
    have hmem : i ∈ (σ.lists.list e).items := by simp [hitems]
    obtain ⟨w, rfl, hlt, hwait, hready⟩ := h.mem_event he hmem
    obtain ⟨l, hstate⟩ := h.stateList_isSome hlt
    obtain ⟨lists, hexec, hitem, hord⟩ :=
      xTaskRemoveFromEventList_head hcur hitems (h.tasks w hlt).owner_event hstate
    refine ⟨_, _, hexec, h.wake hlt hitem (hord h.ordered), ?_⟩
    exact .head hcur (by simp [hitems]) hlt hwait hready hitem

section EventWake

variable {e : ListId} {σ σ' : Sched} {y : Bool}

theorem EventWake.frame (h : EventWake e σ y σ') :
    ∃ top lists, σ' = (σ.setTopReadyPriority top).setLists lists := by
  cases h with
  | empty => exact ⟨σ.uxTopReadyPriority, σ.lists, rfl⟩
  | head => exact ⟨_, _, rfl⟩

theorem EventWake.ready (h : EventWake e σ y σ') {t : TaskId} (ht : σ.Ready t) :
    σ'.Ready t := by
  cases h with
  | empty => exact ht
  | @head w cur lists hcur hhead hlt hwait hready hitem =>
    have hne : t ≠ w := by
      rintro rfl
      exact hready ht
    simpa [Sched.Ready, Sched.stateList, Sched.priority, hitem, hne] using ht

end EventWake

/-! ### Priority changes -/

structure Reprioritised (t : TaskId) (p : Nat) (σ σ' : Sched) : Prop where
  inv : σ'.Inv
  frame : ∃ top lists, σ' = ((σ.setPriority t p).setTopReadyPriority top).setLists lists
  event : ∀ u, σ'.lists.item (xEventListItem u) = σ.lists.item (xEventListItem u)
  state : ∀ u, u ≠ t ∨ ¬ σ.Ready t →
    σ'.lists.item (xStateListItem u) = σ.lists.item (xStateListItem u)
  ready : ∀ u, σ.Ready u → σ'.Ready u

variable {t u : TaskId} {p : Nat}

theorem prvReprioritise_inv {σ : Sched} (h : σ.Inv) (ht : t < σ.uxCurrentNumberOfTasks)
    (hp : p < configMaxPriorities) :
    ∃ σ', prvReprioritise t p σ = some σ' ∧ Reprioritised t p σ σ' := by
  by_cases hready : σ.Ready t
  · obtain ⟨lists, hexec, hitem, hord⟩ := prvReprioritise_of_ready (p := p) hready
    refine ⟨_, hexec, h.reprioritise ht hp hexec, ⟨_, _, rfl⟩, ?_, ?_, ?_⟩
    · intro u
      simp [hitem]
    · intro u hu
      rcases hu with hu | hu
      · simp [hitem, hu]
      · exact absurd hready hu
    · intro u hu
      by_cases heq : u = t
      · subst heq
        simp [Sched.Ready, Sched.stateList, Sched.priority, hitem]
      · simpa [Sched.Ready, Sched.stateList, Sched.priority, hitem, heq] using hu
  · have hexec := prvReprioritise_of_not_ready (p := p) hready
    refine ⟨_, hexec, h.reprioritise ht hp hexec,
      ⟨σ.uxTopReadyPriority, σ.lists, rfl⟩, fun _ => rfl, fun _ _ => rfl, ?_⟩
    intro u hu
    have hne : u ≠ t := by
      rintro rfl
      exact hready hu
    simpa [Sched.Ready, Sched.stateList, Sched.priority, hne] using hu

/-- At most one task has another priority. -/
def PriorityChange (σ σ' : Sched) : Prop :=
  σ' = σ ∨ ∃ t p, Reprioritised t p σ σ'

/-- The priority that `vTaskPriorityInherit` gives the holder: that of the
    current task, when inheritance is on and the holder's is lower. -/
def inherits (σ : Sched) (holder cur : TaskId) : Prop :=
  σ.xInheritEnabled = true ∧ σ.priority holder < σ.priority cur

theorem vTaskPriorityInherit_inv {σ : Sched} (h : σ.Inv) {holder : Option TaskId}
    (hvalid : ∀ t, holder = some t → t < σ.uxCurrentNumberOfTasks) :
    ∃ σ', vTaskPriorityInherit holder σ = some σ' ∧
      ((∃ t cur, holder = some t ∧ σ.pxCurrentTCB = some cur ∧ inherits σ t cur ∧
          Reprioritised t (σ.priority cur) σ σ') ∨
        ((∀ t cur, holder = some t → σ.pxCurrentTCB = some cur → ¬ inherits σ t cur) ∧
          σ' = σ)) := by
  cases holder with
  | none => exact ⟨σ, rfl, Or.inr ⟨by simp, rfl⟩⟩
  | some t =>
    cases hcur : σ.pxCurrentTCB with
    | none => exact ⟨σ, by simp [vTaskPriorityInherit, hcur], Or.inr ⟨by simp, rfl⟩⟩
    | some cur =>
      by_cases hinherit : inherits σ t cur
      · have hp : σ.priority cur < configMaxPriorities :=
          (h.tasks cur (h.current cur hcur)).priority_lt
        obtain ⟨σ', hexec, hre⟩ := prvReprioritise_inv h (hvalid t rfl) hp
        refine ⟨σ', ?_, Or.inl ⟨t, cur, rfl, rfl, hinherit, hre⟩⟩
        obtain ⟨hon, hlow⟩ := hinherit
        have hlow' : (σ.tcb t).uxPriority < (σ.tcb cur).uxPriority := hlow
        simp only [vTaskPriorityInherit, hcur, hon, Bool.true_eq_false, if_false, if_pos hlow']
        exact hexec
      · refine ⟨σ, ?_, Or.inr ⟨?_, rfl⟩⟩
        · simp only [vTaskPriorityInherit, hcur]
          cases hon : σ.xInheritEnabled with
          | false => simp
          | true =>
            have hlow : ¬ (σ.tcb t).uxPriority < (σ.tcb cur).uxPriority :=
              fun hlow => hinherit ⟨hon, hlow⟩
            simp [hlow]
        · intro t' cur' ht' hcur'
          cases ht'
          cases hcur'
          exact hinherit

theorem vTaskPriorityDisinherit_inv {σ : Sched} (h : σ.Inv) {holder : Option TaskId}
    (hvalid : ∀ t, holder = some t → t < σ.uxCurrentNumberOfTasks) :
    ∃ r σ', vTaskPriorityDisinherit holder σ = some (r, σ') ∧
      ((∃ t, holder = some t ∧ σ.priority t ≠ σ.basePriority t ∧
          Reprioritised t (σ.basePriority t) σ σ') ∨
        ((∀ t, holder = some t → σ.priority t = σ.basePriority t) ∧ σ' = σ)) := by
  cases holder with
  | none => exact ⟨pdFalse, σ, rfl, Or.inr ⟨by simp, rfl⟩⟩
  | some t =>
    by_cases hboost : σ.priority t = σ.basePriority t
    · refine ⟨pdFalse, σ, ?_, Or.inr ⟨?_, rfl⟩⟩
      · have hnot : ¬ (σ.tcb t).uxPriority ≠ (σ.tcb t).uxBasePriority := fun hne => hne hboost
        simp only [vTaskPriorityDisinherit, if_neg hnot]
      · intro t' ht'
        cases ht'
        exact hboost
    · have ht := hvalid t rfl
      obtain ⟨σ', hexec, hre⟩ := prvReprioritise_inv h ht (h.tasks t ht).base_lt
      refine ⟨pdTrue, σ', ?_, Or.inl ⟨t, rfl, hboost, hre⟩⟩
      have hne : (σ.tcb t).uxPriority ≠ (σ.tcb t).uxBasePriority := hboost
      simp only [vTaskPriorityDisinherit, if_pos hne]
      change (prvReprioritise t (σ.basePriority t) σ).bind _ = _
      rw [hexec]
      rfl

/-! ### Going to sleep -/

/-- The running task `t` has left its ready list; `e` is the event list that now
    holds its event item, if any, and `n` the timeout. -/
structure Blocked (t : TaskId) (e : Option ListId) (n : TickType) (σ σ' : Sched) : Prop where
  inv : σ'.Inv
  frame : ∃ lists, σ' = σ.setLists lists
  other : ∀ u, u ≠ t →
    σ'.lists.item (xStateListItem u) = σ.lists.item (xStateListItem u) ∧
    σ'.lists.item (xEventListItem u) = σ.lists.item (xEventListItem u)
  event : σ'.eventList t = e
  suspended : e ≠ none → n = portMaxDelay → σ'.stateList t = some xSuspendedTaskList
  delayed : e = none ∨ n ≠ portMaxDelay →
    σ'.stateList t = some xDelayedTaskList ∧ σ'.wakeTime t = σ.xTickCount + n

theorem vTaskPlaceOnEventList_inv {σ : Sched} (h : σ.Inv) {e : ListId} (he : e.isEventList)
    (n : TickType) (hcur : σ.pxCurrentTCB = some t) (hready : σ.Ready t)
    (hidle : σ.xIdle ≠ some t) :
    ∃ σ', vTaskPlaceOnEventList e n σ = some σ' ∧ Blocked t (some e) n σ σ' := by
  have ht := h.current t hcur
  have htok := h.tasks t ht
  obtain ⟨lists, hexec, hitem, hord⟩ :=
    vTaskPlaceOnEventList_spec (e := e) n hcur hready (htok.ready_free hready)
  have hother : ∀ u, u ≠ t →
      lists.item (xStateListItem u) = σ.lists.item (xStateListItem u) ∧
      lists.item (xEventListItem u) = σ.lists.item (xEventListItem u) := by
    intro u hu
    simp [hitem, hu]
  refine ⟨_, hexec, ?_, ⟨lists, rfl⟩, hother, ?_, ?_, ?_⟩
  · refine h.block ht hidle hother ?_ ?_ ?_ (hord h.ordered)
    · by_cases hmax : n = portMaxDelay <;> simp [hitem, blockedItem, hmax]
    · intro l hl
      simp [hitem] at hl
      exact hl ▸ he
    · refine ⟨?_, ?_⟩
      · by_cases hmax : n = portMaxDelay <;>
          simpa [hitem, blockedItem, hmax] using htok.owner_state
      · simpa [hitem] using htok.owner_event
  · simp [Sched.eventList, hitem]
  · intro _ hmax
    simp [Sched.stateList, hitem, blockedItem, hmax]
  · intro hor
    have hmax : n ≠ portMaxDelay := by
      rcases hor with hnone | hmax
      · cases hnone
      · exact hmax
    simp [Sched.stateList, Sched.wakeTime, hitem, blockedItem, hmax]

theorem vTaskDelaySection_inv {σ : Sched} (h : σ.Inv) (n : TickType)
    (hcur : σ.pxCurrentTCB = some t) (hready : σ.Ready t) (hidle : σ.xIdle ≠ some t) :
    ∃ σ', vTaskDelaySection n σ = some σ' ∧ Blocked t none n σ σ' := by
  have ht := h.current t hcur
  have htok := h.tasks t ht
  obtain ⟨lists, hexec, hitem, hord⟩ := vTaskDelaySection_spec n hcur hready
  have hother : ∀ u, u ≠ t →
      lists.item (xStateListItem u) = σ.lists.item (xStateListItem u) ∧
      lists.item (xEventListItem u) = σ.lists.item (xEventListItem u) := by
    intro u hu
    simp [hitem, hu]
  have hfree : lists.item (xEventListItem t) = σ.lists.item (xEventListItem t) := by
    simp [hitem]
  refine ⟨_, hexec, ?_, ⟨lists, rfl⟩, hother, ?_, ?_, ?_⟩
  · refine h.block ht hidle hother ?_ ?_ ?_ (hord h.ordered)
    · simp [hitem]
    · rw [hfree]
      exact htok.event
    · exact ⟨by simpa [hitem] using htok.owner_state, by rw [hfree]; exact htok.owner_event⟩
  · rw [← htok.ready_free hready]
    simp only [Sched.eventList, Sched.setLists_lists, hfree]
  · intro hne
    exact absurd rfl hne
  · intro _
    simp [Sched.stateList, Sched.wakeTime, hitem]

/-! ### What the tasks that wait on an event see -/

theorem EventWake.waiters {e : ListId} {σ σ' : Sched} {y : Bool} (h : EventWake e σ y σ') :
    ((∀ u, σ.eventList u ≠ some e) ∧ σ' = σ) ∨
      ∃ w, σ.eventList w = some e ∧ σ'.eventList w = none ∧
        ∀ u, u ≠ w → σ'.lists.item (xStateListItem u) = σ.lists.item (xStateListItem u) ∧
          σ'.lists.item (xEventListItem u) = σ.lists.item (xEventListItem u) := by
  cases h with
  | empty hempty =>
    refine Or.inl ⟨?_, rfl⟩
    intro u hu
    have hmem : xEventListItem u ∈ (σ.lists.list e).items := (σ.lists.linked _ _).mpr hu
    rw [hempty] at hmem
    cases hmem
  | @head w cur lists _ _ _ hwait _ hitem =>
    refine Or.inr ⟨w, hwait, by simp [Sched.eventList, hitem], ?_⟩
    intro u hu
    constructor
    · simp [hitem, hu]
    · simp [hitem, hu]

theorem EventWake.priorities {e : ListId} {σ σ' : Sched} {y : Bool} (h : EventWake e σ y σ')
    (t : TaskId) :
    σ'.priority t = σ.priority t ∧ σ'.basePriority t = σ.basePriority t := by
  obtain ⟨top, lists, rfl⟩ := h.frame
  exact ⟨rfl, rfl⟩

theorem WokeDue.priorities {σ σ' : Sched} (h : WokeDue σ σ') (t : TaskId) :
    σ'.priority t = σ.priority t ∧ σ'.basePriority t = σ.basePriority t := by
  obtain ⟨top, lists, rfl⟩ := h.frame
  exact ⟨rfl, rfl⟩

theorem Blocked.priorities {e : Option ListId} {n : TickType} {σ σ' : Sched}
    (h : Blocked t e n σ σ') (u : TaskId) :
    σ'.priority u = σ.priority u ∧ σ'.basePriority u = σ.basePriority u := by
  obtain ⟨lists, rfl⟩ := h.frame
  exact ⟨rfl, rfl⟩

theorem EventWake.eventList_of_some {e l : ListId} {σ σ' : Sched} {y : Bool}
    (h : EventWake e σ y σ') (hu : σ'.eventList u = some l) : σ.eventList u = some l := by
  rcases h.waiters with ⟨_, rfl⟩ | ⟨w, _, hfree, hother⟩
  · exact hu
  · by_cases hw : u = w
    · rw [hw, hfree] at hu
      cases hu
    · rw [Sched.eventList, (hother u hw).2] at hu
      exact hu

theorem EventWake.eventList_of_ne {e : ListId} {σ σ' : Sched} {y : Bool} (h : EventWake e σ y σ')
    (hu : σ.eventList u ≠ some e) : σ'.eventList u = σ.eventList u := by
  rcases h.waiters with ⟨_, rfl⟩ | ⟨w, hwait, _, hother⟩
  · rfl
  · have hne : u ≠ w := by
      rintro rfl
      exact hu hwait
    simp only [Sched.eventList, (hother u hne).2]

theorem EventWake.eventList_of_ne_woken {e : ListId} {σ σ' : Sched} {y : Bool}
    (h : EventWake e σ y σ') : ∃ w, ∀ u, u ≠ w → σ'.eventList u = σ.eventList u := by
  rcases h.waiters with ⟨_, rfl⟩ | ⟨w, _, _, hother⟩
  · exact ⟨0, fun _ _ => rfl⟩
  · refine ⟨w, fun u hu => ?_⟩
    simp only [Sched.eventList, (hother u hu).2]

/-- A task that still waits after a tick waited before and is not moved. -/
theorem WokeDue.eventList_of_some {σ σ' : Sched} (h : WokeDue σ σ') {l : ListId}
    (hu : σ'.eventList u = some l) :
    σ.eventList u = some l ∧ ¬ σ.Due u ∧
      σ'.lists.item (xStateListItem u) = σ.lists.item (xStateListItem u) := by
  have hdue : ¬ σ.Due u := by
    intro hdue
    rw [(h.woken u hdue).2] at hu
    cases hu
  obtain ⟨hstate, hevent⟩ := h.kept u hdue
  rw [Sched.eventList, hevent] at hu
  exact ⟨hu, hdue, hstate⟩

theorem Reprioritised.priority {σ σ' : Sched} (h : Reprioritised t p σ σ') (u : TaskId) :
    σ'.priority u = if u = t then p else σ.priority u := by
  obtain ⟨top, lists, rfl⟩ := h.frame
  by_cases hu : u = t
  · subst hu
    simp [Sched.priority]
  · simp [Sched.priority, hu]

theorem Reprioritised.basePriority {σ σ' : Sched} (h : Reprioritised t p σ σ') (u : TaskId) :
    σ'.basePriority u = σ.basePriority u := by
  obtain ⟨top, lists, rfl⟩ := h.frame
  by_cases hu : u = t
  · subst hu
    simp [Sched.basePriority]
  · simp [Sched.basePriority, hu]

theorem Reprioritised.eventList {σ σ' : Sched} (h : Reprioritised t p σ σ') (u : TaskId) :
    σ'.eventList u = σ.eventList u := by
  simp only [Sched.eventList, h.event u]

/-- No task's priority or event list changes, and no waiting task is moved. -/
structure Quiet (σ σ' : Sched) : Prop where
  number : σ.uxCurrentNumberOfTasks ≤ σ'.uxCurrentNumberOfTasks
  tcb : ∀ t, t < σ.uxCurrentNumberOfTasks → σ'.tcb t = σ.tcb t
  added : ∀ t, σ.uxCurrentNumberOfTasks ≤ t → t < σ'.uxCurrentNumberOfTasks →
    σ'.priority t = σ'.basePriority t
  event : ∀ t, σ'.eventList t = σ.eventList t
  waiting : ∀ t, σ.eventList t ≠ none →
    σ'.lists.item (xStateListItem t) = σ.lists.item (xStateListItem t)
  tick : σ'.xTickCount = σ.xTickCount
  idle : ∀ t, t < σ.uxCurrentNumberOfTasks → σ.xIdle ≠ some t → σ'.xIdle ≠ some t

theorem Quiet.of_items {σ σ' : Sched} (hitem : σ'.lists.item = σ.lists.item)
    (htcb : σ'.tcb = σ.tcb)
    (hnumber : σ'.uxCurrentNumberOfTasks = σ.uxCurrentNumberOfTasks)
    (htick : σ'.xTickCount = σ.xTickCount) (hidle : σ'.xIdle = σ.xIdle) : Quiet σ σ' where
  number := Nat.le_of_eq hnumber.symm
  tcb := fun t _ => by rw [htcb]
  added := fun t hle hlt => absurd (hnumber ▸ hlt) (Nat.not_lt.mpr hle)
  event := fun t => by simp only [Sched.eventList, hitem]
  waiting := fun t _ => by rw [hitem]
  tick := htick
  idle := fun t _ hne => hidle ▸ hne

theorem quiet_switch (σ : Sched) : Quiet σ (vTaskSwitchContext σ) :=
  Quiet.of_items (by simp) rfl rfl rfl rfl

theorem Created.quiet {σ σ' : Sched} (h : Created σ σ') (hinv : σ.Inv) : Quiet σ σ' where
  number := h.number
  tcb := h.tcb
  added := fun t hle hlt => (h.added t hle hlt).2
  event := h.eventList hinv
  waiting := fun t ht => by
    obtain ⟨l, hl⟩ := Option.ne_none_iff_exists'.mp ht
    exact h.state t (hinv.lt_of_eventList hl)
  tick := h.tick
  idle := h.idle

theorem Blocked.quiet {n : TickType} {σ σ' : Sched} (h : Blocked t none n σ σ')
    (hfree : σ.eventList t = none) : Quiet σ σ' := by
  have hevent : ∀ u, σ'.eventList u = σ.eventList u := by
    intro u
    by_cases hu : u = t
    · rw [hu, h.event, hfree]
    · simp only [Sched.eventList, (h.other u hu).2]
  have hwaiting : ∀ u, σ.eventList u ≠ none →
      σ'.lists.item (xStateListItem u) = σ.lists.item (xStateListItem u) := by
    intro u hu
    refine (h.other u ?_).1
    rintro rfl
    exact hu hfree
  obtain ⟨lists, rfl⟩ := h.frame
  exact ⟨Nat.le_refl _, fun _ _ => rfl, fun u hle hlt => absurd hlt (Nat.not_lt.mpr hle),
    hevent, hwaiting, rfl, fun _ _ hne => hne⟩

end FlintRTOS
