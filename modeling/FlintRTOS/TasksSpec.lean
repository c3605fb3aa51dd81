import FlintRTOS.Tasks

/-!
# What the scheduler functions do

One theorem for each function of `tasks.c`: under its precondition it does not
fault, and the state it returns is the old one with other lists.  The lists are
described by their item function, which says for every item the list that holds
it, its value and its owner, and by `Ordered`, which says that the lists filled
by `vListInsert` stay ascending.  Callers cite these theorems and do not unfold
the functions.
-/

namespace FlintRTOS

open ListId ItemId

/-- The lists that are only filled by `vListInsert`. -/
def ListId.isOrdered : ListId → Bool
  | xReadyTasksLists _ => false
  | xSuspendedTaskList => false
  | _ => true

def Ordered (lists : Lists) : Prop := ∀ l : ListId, l.isOrdered → lists.Ascending l

abbrev Items := ItemId → ListItem ListId TaskId

/-- The item is unlinked, its other fields stay. -/
def Items.unlink (items : Items) (i : ItemId) : Items :=
  Function.update items i { items i with pxContainer := none }

/-- The state item of `t` is linked in the ready list of priority `p`. -/
def Items.ready (items : Items) (t : TaskId) (p : Nat) : Items :=
  Function.update items (xStateListItem t) ⟨UInt32.ofNat p, some t, some (xReadyTasksLists p)⟩

/-- `t` waits for nothing and is ready: the effect of every wake-up. -/
def Items.wake (items : Items) (t : TaskId) (p : Nat) : Items :=
  (items.unlink (xEventListItem t)).ready t p

theorem Items.unlink_of_free {items : Items} {i : ItemId}
    (hfree : (items i).pxContainer = none) : items.unlink i = items := by
  rw [Items.unlink, ← hfree]
  exact Function.update_eq_self i items

section ItemLemmas

variable (items : Items) {t u : TaskId} (p : Nat)

@[simp] theorem Items.ready_state :
    items.ready t p (xStateListItem t) =
      ⟨UInt32.ofNat p, some t, some (xReadyTasksLists p)⟩ := by
  simp [Items.ready]

@[simp] theorem Items.ready_state_of_ne (h : u ≠ t) :
    items.ready t p (xStateListItem u) = items (xStateListItem u) := by
  simp [Items.ready, h]

@[simp] theorem Items.ready_event :
    items.ready t p (xEventListItem u) = items (xEventListItem u) := by
  simp [Items.ready]

@[simp] theorem Items.wake_state :
    items.wake t p (xStateListItem t) =
      ⟨UInt32.ofNat p, some t, some (xReadyTasksLists p)⟩ := by
  simp [Items.wake]

@[simp] theorem Items.wake_state_of_ne (h : u ≠ t) :
    items.wake t p (xStateListItem u) = items (xStateListItem u) := by
  simp [Items.wake, h, Items.unlink]

@[simp] theorem Items.wake_event :
    items.wake t p (xEventListItem t) =
      { items (xEventListItem t) with pxContainer := none } := by
  simp [Items.wake, Items.unlink]

@[simp] theorem Items.wake_event_of_ne (h : u ≠ t) :
    items.wake t p (xEventListItem u) = items (xEventListItem u) := by
  simp [Items.wake, Items.unlink, h]

end ItemLemmas

variable {s : Sched} {l e : ListId}

theorem prvAddTaskToReadyList_spec {t : TaskId}
    (hfree : (s.lists.item (xStateListItem t)).pxContainer = none) :
    ∃ lists : Lists, prvAddTaskToReadyList t s =
        some ((s.setTopReadyPriority (max s.uxTopReadyPriority (s.tcb t).uxPriority)).setLists
          lists) ∧
      lists.item = Items.ready s.lists.item t (s.tcb t).uxPriority ∧
      (Ordered s.lists → Ordered lists) := by
  let lists₁ := (s.lists.listSetListItemValue (xStateListItem t)
    (UInt32.ofNat (s.tcb t).uxPriority)).listSetListItemOwner (xStateListItem t) t
  have hfree₁ : (lists₁.item (xStateListItem t)).pxContainer = none := by
    simpa [lists₁, ListStore.listSetListItemValue, ListStore.listSetListItemOwner,
      ListStore.setItem] using hfree
  obtain ⟨lists, hinsert, hitem, hasc⟩ :=
    ListStore.vListInsertEnd_spec (xReadyTasksLists (s.tcb t).uxPriority) hfree₁
  refine ⟨lists, ?_, ?_, ?_⟩
  · have htop : (if (s.tcb t).uxPriority > s.uxTopReadyPriority then (s.tcb t).uxPriority
        else s.uxTopReadyPriority) = max s.uxTopReadyPriority (s.tcb t).uxPriority := by
      split <;> omega
    simp only [prvAddTaskToReadyList, htop]
    change (lists₁.vListInsertEnd _ _).bind _ = _
    rw [hinsert]
    rfl
  · rw [hitem]
    simp [lists₁, Items.ready, ListStore.listSetListItemValue,
      ListStore.listSetListItemOwner, ListStore.setItem]
  · intro hord l hl
    have hne : l ≠ xReadyTasksLists (s.tcb t).uxPriority := by
      rintro rfl
      cases hl
    refine hasc l hne ?_
    refine ListStore.ascending_setItem ?_ (ListStore.ascending_setItem ?_ (hord l hl))
    · simp [ListStore.listSetListItemValue, ListStore.setItem, hfree]
    · simp [hfree]

/-! ### Priority changes -/

theorem prvReprioritise_of_ready {t : TaskId} {p : Nat}
    (hready : (s.lists.item (xStateListItem t)).pxContainer =
      some (xReadyTasksLists (s.tcb t).uxPriority)) :
    ∃ lists : Lists, prvReprioritise t p s =
        some (((s.setPriority t p).setTopReadyPriority
          (max s.uxTopReadyPriority p)).setLists lists) ∧
      lists.item = Items.ready s.lists.item t p ∧
      (Ordered s.lists → Ordered lists) := by
  obtain ⟨lists₁, hremove, hitem₁, hasc₁⟩ := ListStore.uxListRemove_spec hready
  have hfree : (((s.setLists lists₁).setPriority t p).lists.item
      (xStateListItem t)).pxContainer = none := by
    simp [hitem₁]
  obtain ⟨lists, hadd, hitem, hord⟩ := prvAddTaskToReadyList_spec hfree
  refine ⟨lists, ?_, ?_, ?_⟩
  · have hin : s.lists.listIsContainedWithin (xReadyTasksLists (s.tcb t).uxPriority)
        (xStateListItem t) = true := ListStore.listIsContainedWithin_iff.mpr hready
    rw [prvReprioritise, if_pos hin, hremove]
    change prvAddTaskToReadyList t _ = _
    rw [hadd]
    simp [Sched.setPriority, Sched.setLists, Sched.setTopReadyPriority]
  · rw [hitem]
    simp [hitem₁, Items.ready]
  · intro h
    exact hord fun l hl => hasc₁ l (h l hl)

theorem prvReprioritise_of_not_ready {t : TaskId} {p : Nat}
    (hblocked : (s.lists.item (xStateListItem t)).pxContainer ≠
      some (xReadyTasksLists (s.tcb t).uxPriority)) :
    prvReprioritise t p s = some (s.setPriority t p) := by
  have hout : ¬ s.lists.listIsContainedWithin (xReadyTasksLists (s.tcb t).uxPriority)
      (xStateListItem t) = true := fun h => hblocked (ListStore.listIsContainedWithin_iff.mp h)
  rw [prvReprioritise, if_neg hout]

/-! ### Blocking -/

/-- Where `vTaskPlaceOnEventList` leaves the state item of the blocking task. -/
def blockedItem (item : ListItem ListId TaskId) (now n : TickType) : ListItem ListId TaskId :=
  if n = portMaxDelay then { item with pxContainer := some xSuspendedTaskList }
  else ⟨now + n, item.pvOwner, some xDelayedTaskList⟩

theorem vTaskPlaceOnEventList_spec {t : TaskId} (n : TickType) (hcur : s.pxCurrentTCB = some t)
    (hstate : (s.lists.item (xStateListItem t)).pxContainer = some l)
    (hevent : (s.lists.item (xEventListItem t)).pxContainer = none) :
    ∃ lists : Lists, vTaskPlaceOnEventList e n s = some (s.setLists lists) ∧
      lists.item = Function.update (Function.update s.lists.item (xEventListItem t)
          { s.lists.item (xEventListItem t) with pxContainer := some e })
        (xStateListItem t)
        (blockedItem (s.lists.item (xStateListItem t)) s.xTickCount n) ∧
      (Ordered s.lists → Ordered lists) := by
  obtain ⟨lists₁, hremove, hitem₁, hasc₁⟩ := ListStore.uxListRemove_spec hstate
  have hevent₁ : (lists₁.item (xEventListItem t)).pxContainer = none := by
    simpa [hitem₁] using hevent
  obtain ⟨lists₂, hinsert, hitem₂, hasc₂⟩ := ListStore.vListInsert_spec e hevent₁
  have hstate₂ : (lists₂.item (xStateListItem t)).pxContainer = none := by
    simp [hitem₂, hitem₁]
  by_cases hmax : n = portMaxDelay
  · obtain ⟨lists, hend, hitem, hasc⟩ :=
      ListStore.vListInsertEnd_spec xSuspendedTaskList hstate₂
    refine ⟨lists, ?_, ?_, ?_⟩
    · simp [vTaskPlaceOnEventList, hcur, hremove, hinsert, hmax, hend]
    · rw [hitem, hitem₂, hitem₁]
      funext i
      by_cases hi : i = xStateListItem t
      · subst hi; simp [blockedItem, hmax]
      · by_cases hi' : i = xEventListItem t
        · subst hi'; simp
        · simp [Function.update_of_ne hi, Function.update_of_ne hi']
    · intro h l' hl'
      have hne : l' ≠ xSuspendedTaskList := by
        rintro rfl
        cases hl'
      exact hasc l' hne (hasc₂ l' (hasc₁ l' (h l' hl')))
  · let lists₃ := lists₂.listSetListItemValue (xStateListItem t) (s.xTickCount + n)
    have hstate₃ : (lists₃.item (xStateListItem t)).pxContainer = none := by
      simpa [lists₃, ListStore.listSetListItemValue, ListStore.setItem] using hstate₂
    obtain ⟨lists, hdelay, hitem, hasc⟩ := ListStore.vListInsert_spec xDelayedTaskList hstate₃
    refine ⟨lists, ?_, ?_, ?_⟩
    · simp only [vTaskPlaceOnEventList, hcur, hremove, hinsert, hmax, Option.bind_eq_bind,
        Option.bind_some, if_false]
      change (lists₃.vListInsert _ _).bind _ = _
      rw [hdelay]
      rfl
    · rw [hitem]
      funext i
      by_cases hi : i = xStateListItem t
      · subst hi
        simp [lists₃, ListStore.listSetListItemValue, ListStore.setItem, hitem₂, hitem₁,
          blockedItem, hmax]
      · by_cases hi' : i = xEventListItem t
        · subst hi'
          simp [lists₃, ListStore.listSetListItemValue, ListStore.setItem, hitem₂, hitem₁]
        · simp [lists₃, ListStore.listSetListItemValue, ListStore.setItem, hitem₂, hitem₁,
            Function.update_of_ne hi, Function.update_of_ne hi']
    · intro h l' hl'
      refine hasc l' (ListStore.ascending_setItem ?_ (hasc₂ l' (hasc₁ l' (h l' hl'))))
      simp [hstate₂]

theorem vTaskDelaySection_spec {t : TaskId} (n : TickType) (hcur : s.pxCurrentTCB = some t)
    (hstate : (s.lists.item (xStateListItem t)).pxContainer = some l) :
    ∃ lists : Lists, vTaskDelaySection n s = some (s.setLists lists) ∧
      lists.item = Function.update s.lists.item (xStateListItem t)
        ⟨s.xTickCount + n, (s.lists.item (xStateListItem t)).pvOwner,
          some xDelayedTaskList⟩ ∧
      (Ordered s.lists → Ordered lists) := by
  obtain ⟨lists₁, hremove, hitem₁, hasc₁⟩ := ListStore.uxListRemove_spec hstate
  let lists₂ := lists₁.listSetListItemValue (xStateListItem t) (s.xTickCount + n)
  have hfree₁ : (lists₁.item (xStateListItem t)).pxContainer = none := by
    simp [hitem₁]
  have hfree₂ : (lists₂.item (xStateListItem t)).pxContainer = none := by
    simpa [lists₂, ListStore.listSetListItemValue, ListStore.setItem] using hfree₁
  obtain ⟨lists, hinsert, hitem, hasc⟩ := ListStore.vListInsert_spec xDelayedTaskList hfree₂
  refine ⟨lists, ?_, ?_, ?_⟩
  · simp only [vTaskDelaySection, hcur, hremove, Option.bind_eq_bind, Option.bind_some]
    change (lists₂.vListInsert _ _).bind _ = _
    rw [hinsert]
    rfl
  · rw [hitem]
    simp [lists₂, ListStore.listSetListItemValue, ListStore.setItem, hitem₁]
  · intro h l' hl'
    refine hasc l' (ListStore.ascending_setItem ?_ (hasc₁ l' (h l' hl')))
    simp [hfree₁]

/-! ### Waking -/

theorem xTaskRemoveFromEventList_empty (hempty : (s.lists.list e).items = []) :
    xTaskRemoveFromEventList e s = some (false, s) := by
  rw [xTaskRemoveFromEventList, if_pos (ListStore.listListIsEmpty_iff.mpr hempty)]

theorem xTaskRemoveFromEventList_head {w cur : TaskId} {rest : List ItemId}
    (hcur : s.pxCurrentTCB = some cur) (hhead : (s.lists.list e).items = xEventListItem w :: rest)
    (howner : (s.lists.item (xEventListItem w)).pvOwner = some w)
    (hstate : (s.lists.item (xStateListItem w)).pxContainer = some l) :
    ∃ lists : Lists, xTaskRemoveFromEventList e s =
        some (decide ((s.tcb w).uxPriority > (s.tcb cur).uxPriority),
          (s.setTopReadyPriority (max s.uxTopReadyPriority (s.tcb w).uxPriority)).setLists
            lists) ∧
      lists.item = Items.wake s.lists.item w (s.tcb w).uxPriority ∧
      (Ordered s.lists → Ordered lists) := by
  have hevent : (s.lists.item (xEventListItem w)).pxContainer = some e := by
    refine (s.lists.linked e _).mp ?_
    rw [hhead]
    exact List.mem_cons_self
  obtain ⟨lists₁, hremove₁, hitem₁, hasc₁⟩ := ListStore.uxListRemove_spec hevent
  have hstate₁ : (lists₁.item (xStateListItem w)).pxContainer = some l := by
    simpa [hitem₁] using hstate
  obtain ⟨lists₂, hremove₂, hitem₂, hasc₂⟩ := ListStore.uxListRemove_spec hstate₁
  have hfree : ((s.setLists lists₂).lists.item (xStateListItem w)).pxContainer = none := by
    simp [hitem₂]
  obtain ⟨lists, hadd, hitem, hord⟩ := prvAddTaskToReadyList_spec hfree
  refine ⟨lists, ?_, ?_, ?_⟩
  · have hne : ¬ s.lists.listListIsEmpty e = true := by
      rw [ListStore.listListIsEmpty_iff, hhead]
      exact List.cons_ne_nil _ _
    have hentry : s.lists.listGetHeadEntry e = some (xEventListItem w) := by
      simp [ListStore.listGetHeadEntry, hhead]
    rw [xTaskRemoveFromEventList, if_neg hne]
    simp [hentry, ListStore.listGetListItemOwner, howner, hremove₁, hremove₂, hadd, hcur]
    rfl
  · rw [hitem]
    simp [hitem₂, hitem₁, Items.wake, Items.unlink, Items.ready]
  · intro h
    exact hord fun l' hl' => hasc₂ l' (hasc₁ l' (h l' hl'))

theorem prvRemoveEventItem_spec (w : TaskId) (lists : Lists) :
    ∃ lists' : Lists, prvRemoveEventItem w lists = some lists' ∧
      lists'.item = Items.unlink lists.item (xEventListItem w) ∧
      (Ordered lists → Ordered lists') := by
  cases hc : (lists.item (xEventListItem w)).pxContainer with
  | none =>
    refine ⟨lists, ?_, (Items.unlink_of_free hc).symm, id⟩
    simp [prvRemoveEventItem, ListStore.listGetListItemContainer, hc]
  | some e =>
    obtain ⟨lists', hremove, hitem, hasc⟩ := ListStore.uxListRemove_spec hc
    refine ⟨lists', ?_, hitem, fun h l hl => hasc l (h l hl)⟩
    simp [prvRemoveEventItem, ListStore.listGetListItemContainer, hc, hremove]

theorem prvWakeDue_spec {w : TaskId} (howner : (s.lists.item (xStateListItem w)).pvOwner = some w)
    (hstate : (s.lists.item (xStateListItem w)).pxContainer = some l) :
    ∃ lists : Lists, prvWakeDue (xStateListItem w) s =
        some ((s.setTopReadyPriority (max s.uxTopReadyPriority (s.tcb w).uxPriority)).setLists
          lists) ∧
      lists.item = Items.wake s.lists.item w (s.tcb w).uxPriority ∧
      (Ordered s.lists → Ordered lists) := by
  obtain ⟨lists₁, hremove₁, hitem₁, hasc₁⟩ := ListStore.uxListRemove_spec hstate
  obtain ⟨lists₂, hremove₂, hitem₂, hord₂⟩ := prvRemoveEventItem_spec w lists₁
  have hfree : ((s.setLists lists₂).lists.item (xStateListItem w)).pxContainer = none := by
    simp [hitem₂, hitem₁, Items.unlink]
  obtain ⟨lists, hadd, hitem, hord⟩ := prvAddTaskToReadyList_spec hfree
  refine ⟨lists, ?_, ?_, ?_⟩
  · simp only [prvWakeDue, ListStore.listGetListItemOwner, howner, hremove₁, hremove₂,
      Option.bind_eq_bind, Option.bind_some]
    exact hadd
  · rw [hitem]
    funext i
    by_cases hi : i = xStateListItem w
    · subst hi; simp [Items.wake, Items.ready]
    · simp [Items.wake, Items.ready, Items.unlink, hitem₂, hitem₁, Function.update_of_ne hi,
        Function.update_apply]
  · intro h
    exact hord (hord₂ fun l' hl' => hasc₁ l' (h l' hl'))

/-! ### Creation -/

theorem prvInitialiseReadyLists_eq {lists : Lists}
    (hfree : ∀ i, (lists.item i).pxContainer = none) (n : Nat) :
    prvInitialiseReadyLists n lists = some lists := by
  induction n with
  | zero => rfl
  | succ n ih =>
    have hempty : ∀ i, (lists.item i).pxContainer ≠ some (xReadyTasksLists n) := by
      simp [hfree]
    simp [prvInitialiseReadyLists, ih, ListStore.vListInitialise_eq hempty]

theorem prvInitialiseTaskLists_eq (hfree : ∀ i, (s.lists.item i).pxContainer = none) :
    prvInitialiseTaskLists s = some s := by
  have hempty : ∀ l i, (s.lists.item i).pxContainer ≠ some l := by
    simp [hfree]
  simp only [prvInitialiseTaskLists, prvInitialiseReadyLists_eq hfree,
    ListStore.vListInitialise_eq (hempty _), Option.bind_eq_bind, Option.bind_some]
  rfl

theorem prvEnsureTaskLists_eq
    (hfree : s.xListsInitialised = false → ∀ i, (s.lists.item i).pxContainer = none) :
    prvEnsureTaskLists s = some s.setListsInitialised := by
  cases hinit : s.xListsInitialised with
  | true =>
    rw [prvEnsureTaskLists, if_pos hinit]
    cases s
    simp_all [Sched.setListsInitialised]
  | false => simp [prvEnsureTaskLists, hinit, prvInitialiseTaskLists_eq (hfree hinit)]

/-- The items of the new task `t`: its state item is ready, its event item free. -/
def Items.create (items : Items) (t : TaskId) (p : Nat) : Items :=
  Items.ready (Function.update items (xEventListItem t)
    ⟨UInt32.ofNat (configMaxPriorities - p), some t, none⟩) t p

theorem prvCreateTask_spec (p : Nat)
    (hstate : (s.lists.item (xStateListItem s.uxCurrentNumberOfTasks)).pxContainer = none)
    (hevent : (s.lists.item (xEventListItem s.uxCurrentNumberOfTasks)).pxContainer = none) :
    ∃ lists : Lists, prvCreateTask p s =
        some (((s.addTask p).setTopReadyPriority (max s.uxTopReadyPriority p)).setLists
          lists) ∧
      lists.item = Items.create s.lists.item s.uxCurrentNumberOfTasks p ∧
      (Ordered s.lists → Ordered lists) := by
  set t := s.uxCurrentNumberOfTasks with ht
  obtain ⟨lists₁, hinit₁, hitem₁, hasc₁⟩ := ListStore.vListInitialiseItem_spec hstate
  have hevent₁ : (lists₁.item (xEventListItem t)).pxContainer = none := by
    simpa [hitem₁] using hevent
  obtain ⟨lists₂, hinit₂, hitem₂, hasc₂⟩ := ListStore.vListInitialiseItem_spec hevent₁
  have hstate₂ : (lists₂.item (xStateListItem t)).pxContainer = none := by
    simp [hitem₂, hitem₁, ListItem.initial]
  have hevent₂ : (lists₂.item (xEventListItem t)).pxContainer = none := by
    simp [hitem₂, ListItem.initial]
  let lists₃ := ((lists₂.listSetListItemOwner (xStateListItem t) t).listSetListItemOwner
    (xEventListItem t) t).listSetListItemValue (xEventListItem t)
      (UInt32.ofNat (configMaxPriorities - p))
  have hitem₃ : lists₃.item = Function.update (Function.update lists₂.item (xStateListItem t)
      { lists₂.item (xStateListItem t) with pvOwner := some t }) (xEventListItem t)
      ⟨UInt32.ofNat (configMaxPriorities - p), some t, none⟩ := by
    simp [lists₃, ListStore.listSetListItemOwner, ListStore.listSetListItemValue,
      ListStore.setItem, hevent₂]
  have hord₃ : Ordered lists₂ → Ordered lists₃ := by
    intro h l hl
    refine ListStore.ascending_setItem ?_ (ListStore.ascending_setItem ?_
      (ListStore.ascending_setItem ?_ (h l hl)))
    · simp [ListStore.listSetListItemOwner, ListStore.setItem, hevent₂]
    · simp [ListStore.listSetListItemOwner, ListStore.setItem, hevent₂]
    · simp [hstate₂]
  have hfree : (((s.setLists lists₃).addTask p).lists.item (xStateListItem t)).pxContainer =
      none := by
    simp [hitem₃, hstate₂]
  obtain ⟨lists, hadd, hitem, hord⟩ := prvAddTaskToReadyList_spec hfree
  refine ⟨lists, ?_, ?_, ?_⟩
  · simp only [prvCreateTask, ← ht, hinit₁, hinit₂, Option.bind_eq_bind, Option.bind_some]
    change prvAddTaskToReadyList t ((s.setLists lists₃).addTask p) = _
    rw [hadd]
    simp [Sched.addTask, Sched.setLists, Sched.setTopReadyPriority, ← ht]
  · rw [hitem]
    funext i
    by_cases hi : i = xStateListItem t
    · subst hi; simp [Items.create, Items.ready, ← ht]
    · by_cases hi' : i = xEventListItem t
      · subst hi'; simp [Items.create, Items.ready, hitem₃]
      · simp [Items.create, Items.ready, hitem₃, hitem₂, hitem₁, Function.update_of_ne hi,
          Function.update_of_ne hi']
  · intro h
    exact hord (hord₃ fun l hl => hasc₂ l (hasc₁ l (h l hl)))

theorem clampPriority_lt (p : Nat) : clampPriority p < configMaxPriorities := by
  unfold clampPriority configMaxPriorities
  split <;> omega

/-- `xTaskCreate` either adds one ready task or, when an allocation failed,
    changes no item. -/
theorem xTaskCreate_spec (memory : TaskMemory) (uxPriority : Nat)
    (hfree : s.xListsInitialised = false → ∀ i, (s.lists.item i).pxContainer = none)
    (hstate : (s.lists.item (xStateListItem s.uxCurrentNumberOfTasks)).pxContainer = none)
    (hevent : (s.lists.item (xEventListItem s.uxCurrentNumberOfTasks)).pxContainer = none) :
    ∃ lists : Lists, (Ordered s.lists → Ordered lists) ∧
      (((memory.stack && memory.tcb) = true ∧
        xTaskCreate memory uxPriority s = some (pdPass,
          ((s.setListsInitialised.addTask (clampPriority uxPriority)).setTopReadyPriority
            (max s.uxTopReadyPriority (clampPriority uxPriority))).setLists lists) ∧
        lists.item = Items.create s.lists.item s.uxCurrentNumberOfTasks
          (clampPriority uxPriority)) ∨
      ((memory.stack && memory.tcb) = false ∧
        xTaskCreate memory uxPriority s = some (errCouldNotAllocateRequiredMemory,
          s.setListsInitialised.setLists lists) ∧
        lists.item = s.lists.item)) := by
  have hensure := prvEnsureTaskLists_eq hfree
  by_cases hmem : (memory.stack && memory.tcb) = true
  · obtain ⟨lists, hcreate, hitem, hord⟩ :=
      prvCreateTask_spec (s := s.setListsInitialised) (clampPriority uxPriority) hstate hevent
    refine ⟨lists, hord, Or.inl ⟨hmem, ?_, hitem⟩⟩
    simp only [xTaskCreate, hensure, hmem, hcreate, Option.bind_eq_bind, Option.bind_some,
      if_true]
    rfl
  · refine ⟨s.lists, id, Or.inr ⟨by simpa using hmem, ?_, rfl⟩⟩
    simp only [xTaskCreate, hensure, hmem, Option.bind_eq_bind, Option.bind_some]
    rfl

/-! ### Context switch -/

/-- The scan stops at the highest non-empty ready list not above its start, or
    at priority 0 when there is none. -/
theorem prvScanReady_spec (lists : Lists) (top : Nat) :
    prvScanReady lists top ≤ top ∧
      (∀ p, prvScanReady lists top < p → p ≤ top →
        (lists.list (xReadyTasksLists p)).items = []) ∧
      (prvScanReady lists top = 0 ∨
        (lists.list (xReadyTasksLists (prvScanReady lists top))).items ≠ []) := by
  induction top with
  | zero =>
    refine ⟨Nat.le_refl _, ?_, Or.inl rfl⟩
    intro p hlt hle
    simp only [prvScanReady] at hlt
    omega
  | succ top ih =>
    by_cases hempty : lists.listListIsEmpty (xReadyTasksLists (top + 1)) = true
    · -- an empty list: the scan continues below it
      rw [prvScanReady, if_pos hempty]
      obtain ⟨hle, habove, hfound⟩ := ih
      refine ⟨by omega, ?_, hfound⟩
      intro p hlt hp
      by_cases hp' : p = top + 1
      · subst hp'
        exact ListStore.listListIsEmpty_iff.mp hempty
      · exact habove p hlt (by omega)
    · rw [prvScanReady, if_neg hempty]
      refine ⟨Nat.le_refl _, ?_, Or.inr ?_⟩
      · intro p hlt hp
        omega
      · intro hnil
        exact hempty (ListStore.listListIsEmpty_iff.mpr hnil)

end FlintRTOS
