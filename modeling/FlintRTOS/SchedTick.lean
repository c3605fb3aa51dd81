import FlintRTOS.SchedInvariant

/-!
# The tick

`xTaskIncrementTick` wakes from the head of the delayed list while the head is
due.  Because that list is ascending, the loop wakes exactly the due tasks: it
stops at the first item that is not due, and every item behind it is later.

`WokeDue` is the specification of the loop.  It is proved by induction on the
iterations, with the invariant and the length of the delayed list carried
along; one iteration is `Sched.Inv.wake`.
-/

namespace FlintRTOS

open ListId ItemId

/-- `t` is delayed and its wake time has come. -/
def Sched.Due (s : Sched) (t : TaskId) : Prop :=
  s.stateList t = some xDelayedTaskList ∧ s.wakeTime t ≤ s.xTickCount

instance (s : Sched) (t : TaskId) : Decidable (s.Due t) := inferInstanceAs (Decidable (_ ∧ _))

/-- The task that an item is embedded in. -/
def ItemId.task : ItemId → TaskId
  | xStateListItem t => t
  | xEventListItem t => t

/-- `s'` is `s` with exactly the due tasks made ready. -/
structure WokeDue (s s' : Sched) : Prop where
  inv : s'.Inv
  frame : ∃ top lists, s' = (s.setTopReadyPriority top).setLists lists
  woken : ∀ t, s.Due t → s'.Ready t ∧ s'.eventList t = none
  kept : ∀ t, ¬ s.Due t →
    s'.lists.item (xStateListItem t) = s.lists.item (xStateListItem t) ∧
    s'.lists.item (xEventListItem t) = s.lists.item (xEventListItem t)
  done : ∀ t, ¬ s'.Due t

variable {s s' : Sched} {w : TaskId} {lists : Lists}

theorem WokeDue.tcb (h : WokeDue s s') : s'.tcb = s.tcb := by
  obtain ⟨top, lists, rfl⟩ := h.frame
  rfl

theorem WokeDue.ready (h : WokeDue s s') {t : TaskId} (ht : s.Ready t) : s'.Ready t := by
  have hdue : ¬ s.Due t := fun hd => not_ready_of_blocked (Or.inl hd.1) ht
  simpa only [Sched.Ready, Sched.stateList, Sched.priority, h.tcb, (h.kept t hdue).1] using ht

theorem WokeDue.refl (h : s.Inv) (hnone : ∀ t, ¬ s.Due t) :
    WokeDue s s where
  inv := h
  frame := ⟨s.uxTopReadyPriority, s.lists, rfl⟩
  woken := fun t ht => absurd ht (hnone t)
  kept := fun _ _ => ⟨rfl, rfl⟩
  done := hnone

theorem due_wake {t : TaskId} {top : Nat}
    (hitem : lists.item = Items.wake s.lists.item w (s.tcb w).uxPriority) :
    ((s.setTopReadyPriority top).setLists lists).Due t ↔ s.Due t ∧ t ≠ w := by
  by_cases ht : t = w
  · subst ht
    simp [Sched.Due, Sched.stateList, hitem]
  · simp [Sched.Due, Sched.stateList, Sched.wakeTime, hitem, ht]

/-- One iteration in front of a loop that wakes the rest. -/
theorem WokeDue.cons (hdue : s.Due w)
    (hitem : lists.item = Items.wake s.lists.item w (s.tcb w).uxPriority)
    (h : WokeDue ((s.setTopReadyPriority
      (max s.uxTopReadyPriority (s.tcb w).uxPriority)).setLists lists) s') : WokeDue s s' := by
  set s₁ := (s.setTopReadyPriority
    (max s.uxTopReadyPriority (s.tcb w).uxPriority)).setLists lists with hs₁
  have hw : ¬ s₁.Due w := fun hd => ((due_wake hitem).mp hd).2 rfl
  have hother : ∀ t, t ≠ w → (s₁.Due t ↔ s.Due t) := by
    intro t ht
    rw [hs₁, due_wake hitem, and_iff_left ht]
  refine ⟨h.inv, ?_, ?_, ?_, h.done⟩
  · obtain ⟨top, lists', rfl⟩ := h.frame
    exact ⟨top, lists', rfl⟩
  · intro t ht
    by_cases heq : t = w
    · -- `w` was made ready by this iteration and is not touched again
      subst heq
      obtain ⟨hstate, hevent⟩ := h.kept t hw
      constructor
      · simp [Sched.Ready, Sched.stateList, Sched.priority, h.tcb, hstate, hs₁, hitem]
      · simp [Sched.eventList, hevent, hs₁, hitem]
    · exact h.woken t ((hother t heq).mpr ht)
  · intro t ht
    have heq : t ≠ w := by
      rintro rfl
      exact ht hdue
    obtain ⟨hstate, hevent⟩ := h.kept t fun hd => ht ((hother t heq).mp hd)
    refine ⟨hstate.trans ?_, hevent.trans ?_⟩
    · simp [hs₁, hitem, heq]
    · simp [hs₁, hitem, heq]

/-- Nobody is due when the delayed list is empty or its head is not due. -/
theorem not_due_of_head (h : s.Inv)
    (hhead : ∀ i rest, (s.lists.list xDelayedTaskList).items = i :: rest →
      s.xTickCount < (s.lists.item i).xItemValue) (t : TaskId) : ¬ s.Due t := by
  rintro ⟨hstate, hle⟩
  have hmem : xStateListItem t ∈ (s.lists.list xDelayedTaskList).items :=
    (s.lists.linked _ _).mpr hstate
  cases hitems : (s.lists.list xDelayedTaskList).items with
  | nil => rw [hitems] at hmem; cases hmem
  | cons i rest =>
    have hfirst := UInt32.lt_iff_toNat_lt.mp (hhead i rest hitems)
    have hle' := UInt32.le_iff_toNat_le.mp hle
    have hasc := h.ordered xDelayedTaskList rfl
    rw [ListStore.Ascending, hitems, List.pairwise_cons] at hasc
    rw [hitems] at hmem
    rcases List.mem_cons.mp hmem with heq | hrest
    · rw [← heq] at hfirst
      exact absurd hle' (Nat.not_le.mpr hfirst)
    · have := hasc.1 _ hrest
      rw [Sched.wakeTime] at hle'
      omega

theorem length_delayed_wake (hw : xStateListItem w ∈ (s.lists.list xDelayedTaskList).items)
    {p : Nat} (hitem : lists.item = Items.wake s.lists.item w p) :
    (lists.list xDelayedTaskList).items.length <
      (s.lists.list xDelayedTaskList).items.length := by
  have hsub : (lists.list xDelayedTaskList).items ⊆
      (s.lists.list xDelayedTaskList).items.erase (xStateListItem w) := by
    intro i hi
    have hc := (lists.linked _ i).mp hi
    rw [hitem] at hc
    have hne : i ≠ xStateListItem w := by
      rintro rfl
      simp at hc
    refine (List.mem_erase_of_ne hne).mpr ((s.lists.linked _ i).mpr ?_)
    cases i with
    | xStateListItem t =>
      have ht : t ≠ w := fun h => hne (by rw [h])
      simpa [ht] using hc
    | xEventListItem t =>
      by_cases ht : t = w
      · subst ht; simp at hc
      · simpa [ht] using hc
  have hlen := List.Nodup.length_le_of_subset (lists.list xDelayedTaskList).nodup hsub
  rw [List.length_erase_of_mem hw] at hlen
  have hpos := List.length_pos_of_mem hw
  omega

theorem prvWakeLoop_spec (fuel : Nat) :
    ∀ {s : Sched}, s.Inv → (s.lists.list xDelayedTaskList).items.length ≤ fuel →
      ∃ s', prvWakeLoop fuel s = some s' ∧ WokeDue s s' := by
  induction fuel with
  | zero =>
    intro s h hlen
    refine ⟨s, rfl, WokeDue.refl h (not_due_of_head h ?_)⟩
    intro i rest hitems
    rw [hitems] at hlen
    simp at hlen
  | succ fuel ih =>
    intro s h hlen
    cases hitems : (s.lists.list xDelayedTaskList).items with
    | nil =>
      refine ⟨s, ?_, WokeDue.refl h (not_due_of_head h ?_)⟩
      · simp [prvWakeLoop, ListStore.listGetHeadEntry, hitems]
      · intro i rest hcons
        rw [hitems] at hcons
        cases hcons
    | cons i rest =>
      have hentry : s.lists.listGetHeadEntry xDelayedTaskList = some i := by
        simp [ListStore.listGetHeadEntry, hitems]
      by_cases hlate : s.lists.listGetListItemValue i > s.xTickCount
      · -- the head is not due: the loop ends
        refine ⟨s, ?_, WokeDue.refl h (not_due_of_head h ?_)⟩
        · simp only [prvWakeLoop, hentry, hlate, if_true]
        · intro j rest' hcons
          rw [hitems] at hcons
          cases hcons
          exact hlate
      · have hmem : i ∈ (s.lists.list xDelayedTaskList).items := by simp [hitems]
        obtain ⟨w, rfl, hw, hstate⟩ := h.mem_delayed hmem
        have hdue : s.Due w := ⟨hstate, UInt32.not_lt.mp hlate⟩
        obtain ⟨lists, hwake, hitem, hord⟩ :=
          prvWakeDue_spec (h.tasks w hw).owner_state hstate
        have hshort := length_delayed_wake hmem hitem
        obtain ⟨s', hloop, hwoke⟩ := ih (h.wake hw hitem (hord h.ordered)) (by
          simp only [Sched.setLists_lists]
          omega)
        refine ⟨s', ?_, hwoke.cons hdue hitem⟩
        simp only [prvWakeLoop, hentry, hlate, if_false, hwake, Option.bind_some]
        exact hloop

theorem Sched.Inv.setTickCount (h : s.Inv) (n : TickType) : (s.setTickCount n).Inv :=
  h.congr rfl h.ordered rfl rfl rfl rfl rfl id

/-! ### The order of the other items -/

theorem prvWakeDue_keepsOrder {Q : ItemId → Bool} {i : ItemId}
    (howner : (s.lists.item i).pvOwner = some w) (hstate : Q (xStateListItem w) = false)
    (hevent : Q (xEventListItem w) = false) (h : prvWakeDue i s = some s') :
    s.lists.KeepsOrder Q s'.lists := by
  simp only [prvWakeDue, ListStore.listGetListItemOwner, howner, Option.bind_eq_bind,
    Option.bind_some] at h
  obtain ⟨lists₁, hremove, h⟩ := Option.bind_eq_some_iff.mp h
  obtain ⟨lists₂, hevents, h⟩ := Option.bind_eq_some_iff.mp h
  obtain ⟨lists₃, hinsert, h⟩ := Option.bind_eq_some_iff.mp h
  cases h
  have hunlinked : lists₁.KeepsOrder Q lists₂ := by
    unfold prvRemoveEventItem at hevents
    split at hevents
    · exact .uxListRemove hevent hevents
    · cases hevents
      exact .refl _
  refine (ListStore.KeepsOrder.uxListRemove hstate hremove).trans (hunlinked.trans ?_)
  refine ListStore.KeepsOrder.trans ?_ (.vListInsertEnd hstate hinsert)
  exact (ListStore.KeepsOrder.setItem _ _ _).trans (.setItem _ _ _)

/-- The loop keeps the order of every item whose task is not due. -/
theorem prvWakeLoop_keepsOrder {Q : ItemId → Bool} (fuel : Nat) :
    ∀ {s s' : Sched}, s.Inv → (∀ i, s.Due i.task → Q i = false) →
      prvWakeLoop fuel s = some s' → s.lists.KeepsOrder Q s'.lists := by
  induction fuel with
  | zero =>
    intro s s' _ _ h
    cases h
    exact .refl _
  | succ fuel ih =>
    intro s s' hinv hQ h
    unfold prvWakeLoop at h
    split at h
    · cases h
      exact .refl _
    · rename_i i hhead
      split at h
      · cases h
        exact .refl _
      · rename_i hlate
        obtain ⟨s₁, hwake, h⟩ := Option.bind_eq_some_iff.mp h
        obtain ⟨w, rfl, hw, hstate⟩ := hinv.mem_delayed (List.mem_of_mem_head? hhead)
        have hdue : s.Due w := ⟨hstate, UInt32.not_lt.mp hlate⟩
        have howner := (hinv.tasks w hw).owner_state
        obtain ⟨lists, hwake', hitem, hord⟩ := prvWakeDue_spec howner hstate
        cases hwake.symm.trans hwake'
        refine (prvWakeDue_keepsOrder howner (hQ (xStateListItem w) hdue)
          (hQ (xEventListItem w) hdue) hwake).trans ?_
        refine ih (hinv.wake hw hitem (hord hinv.ordered)) ?_ h
        intro j hj
        exact hQ j ((due_wake hitem).mp hj).1

/-- **The tick wakes exactly the due tasks** and does not fault. -/
theorem xTaskIncrementTick_spec (h : s.Inv) :
    ∃ s', xTaskIncrementTick s = some s' ∧ WokeDue (s.setTickCount (s.xTickCount + 1)) s' :=
  prvWakeLoop_spec _ (h.setTickCount _) (Nat.le_refl _)

end FlintRTOS
