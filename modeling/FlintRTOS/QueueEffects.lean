import FlintRTOS.SchedEffects
import FlintRTOS.Queue

/-!
# The effect of each critical section of a queue call

What the sections of `queue.c` do to the scheduler, in terms of the scheduler's
effect relations: a successful section may restore the holder's priority
(`Released`) and wakes one waiter of the other side; an enlisting section may
boost the holder (`Boosted`) and blocks the caller.  Neither faults, unless the
message copy itself does.
-/

namespace FlintRTOS

open ListId ItemId

/-! ### The record -/

theorem Call.copy_fields {c : Call} {q q' : Queue} {item : Item}
    (h : c.copy q = some (item, q')) :
    q'.uxLength = q.uxLength ∧ q'.uxItemSize = q.uxItemSize ∧ q'.ucIsMutex = q.ucIsMutex ∧
      q'.pxMutexHolder = q.pxMutexHolder ∧
      q'.uxMessagesWaiting =
        if c.isSend then q.uxMessagesWaiting + 1 else q.uxMessagesWaiting - 1 := by
  cases c with
  | prvSend x pvItem n xToFront =>
    obtain ⟨q₁, hcopy, heq⟩ := Option.map_eq_some_iff.mp h
    cases heq
    unfold prvCopyIn at hcopy
    split at hcopy
    · cases hcopy
      exact ⟨rfl, rfl, rfl, rfl, rfl⟩
    · split at hcopy
      · split at hcopy
        · obtain ⟨_, heq⟩ := Option.ite_none_right_eq_some.mp hcopy
          cases heq
          exact ⟨rfl, rfl, rfl, rfl, rfl⟩
        · obtain ⟨_, heq⟩ := Option.ite_none_right_eq_some.mp hcopy
          cases heq
          exact ⟨rfl, rfl, rfl, rfl, rfl⟩
      · cases hcopy
        exact ⟨rfl, rfl, rfl, rfl, rfl⟩
  | xQueueReceive x pvBuffer n =>
    change prvCopyOut pvBuffer q = some (item, q') at h
    unfold prvCopyOut at h
    split at h
    · obtain ⟨_, heq⟩ := Option.ite_none_right_eq_some.mp h
      cases heq
      exact ⟨rfl, rfl, rfl, rfl, rfl⟩
    · cases h
      exact ⟨rfl, rfl, rfl, rfl, rfl⟩

/-- The record after the mutex part of a successful section run by `t`. -/
def Call.settled (c : Call) (t : TaskId) (q : Queue) : Queue :=
  if q.ucIsMutex then q.setMutexHolder (if c.isSend then none else some t) else q

section settled

variable (c : Call) (t : TaskId) (q : Queue)

@[simp] theorem Call.settled_uxLength : (c.settled t q).uxLength = q.uxLength := by
  unfold settled; split <;> rfl

@[simp] theorem Call.settled_uxItemSize : (c.settled t q).uxItemSize = q.uxItemSize := by
  unfold settled; split <;> rfl

@[simp] theorem Call.settled_uxMessagesWaiting :
    (c.settled t q).uxMessagesWaiting = q.uxMessagesWaiting := by
  unfold settled; split <;> rfl

@[simp] theorem Call.settled_ucIsMutex : (c.settled t q).ucIsMutex = q.ucIsMutex := by
  unfold settled; split <;> rfl

theorem Call.settled_pxMutexHolder (hmutex : q.ucIsMutex = true) :
    (c.settled t q).pxMutexHolder = if c.isSend then none else some t := by
  simp [settled, hmutex]

end settled

theorem Call.isEventList_waitList (c : Call) : c.waitList.isEventList = true := by
  cases c <;> rfl

theorem Call.isEventList_wakeList (c : Call) : c.wakeList.isEventList = true := by
  cases c <;> rfl

/-- What a change of priority in a section leaves alone. -/
structure SamePlaces (σ σ₁ : Sched) : Prop where
  number : σ₁.uxCurrentNumberOfTasks = σ.uxCurrentNumberOfTasks
  current : σ₁.pxCurrentTCB = σ.pxCurrentTCB
  tick : σ₁.xTickCount = σ.xTickCount
  inherit : σ₁.xInheritEnabled = σ.xInheritEnabled
  idle : σ₁.xIdle = σ.xIdle
  event : ∀ u, σ₁.eventList u = σ.eventList u
  ready : ∀ u, σ.Ready u → σ₁.Ready u

theorem SamePlaces.refl (σ : Sched) : SamePlaces σ σ :=
  ⟨rfl, rfl, rfl, rfl, rfl, fun _ => rfl, fun _ hu => hu⟩

variable {σ σ₁ : Sched} {x : QueueId}

theorem SamePlaces.of_reprioritised {t : TaskId} {p : Nat} (h : Reprioritised t p σ σ₁) :
    SamePlaces σ σ₁ := by
  have hevent := h.eventList
  have hready := h.ready
  obtain ⟨top, lists, rfl⟩ := h.frame
  exact ⟨rfl, rfl, rfl, rfl, rfl, hevent, hready⟩

/-! ### A successful section -/

/-- A give of a mutex puts its holder back to the base priority; nothing else
    happens to priorities. -/
inductive Released (c : Call) (q : Queue) (σ : Sched) : Sched → Prop where
  | restored {h : TaskId} {σ₁ : Sched} (hsend : c.isSend = true) (hmutex : q.ucIsMutex = true)
      (hholder : q.pxMutexHolder = some h) (hboost : σ.priority h ≠ σ.basePriority h)
      (hre : Reprioritised h (σ.basePriority h) σ σ₁) : Released c q σ σ₁
  | kept (hbase : c.isSend = true → q.ucIsMutex = true → ∀ h, q.pxMutexHolder = some h →
      σ.priority h = σ.basePriority h) : Released c q σ σ

theorem Released.frame {c : Call} {q : Queue} (h : Released c q σ σ₁) : SamePlaces σ σ₁ := by
  cases h with
  | restored _ _ _ _ hre => exact .of_reprioritised hre
  | kept => exact .refl σ

theorem Call.settle_effect {c : Call} {q : Queue} (h : σ.Inv) {t : TaskId}
    (hcur : σ.pxCurrentTCB = some t)
    (hholder : ∀ u, q.pxMutexHolder = some u → u < σ.uxCurrentNumberOfTasks) :
    ∃ σ₁, c.settle q σ = some (c.settled t q, σ₁) ∧ Released c q σ σ₁ ∧ σ₁.Inv := by
  cases hmutex : q.ucIsMutex with
  | false =>
    refine ⟨σ, by simp [settle, settled, hmutex], .kept ?_, h⟩
    intro _ htrue
    rw [hmutex] at htrue
    cases htrue
  | true =>
    cases c with
    | xQueueReceive x pvBuffer n =>
      refine ⟨σ, by simp [settle, settled, hmutex, hcur, isSend], .kept ?_, h⟩
      intro hsend
      cases hsend
    | prvSend x pvItem n xToFront =>
      obtain ⟨r, σ₁, hexec, hcase⟩ := vTaskPriorityDisinherit_inv h hholder
      refine ⟨σ₁, by simp [settle, settled, hmutex, hexec, isSend], ?_⟩
      rcases hcase with ⟨u, hu, hboost, hre⟩ | ⟨hbase, rfl⟩
      · exact ⟨.restored rfl hmutex hu hboost hre, hre.inv⟩
      · exact ⟨.kept fun _ _ => hbase, h⟩

theorem Call.transfer_effect {c : Call} {q q₁ : Queue} {item : Item} (h : σ.Inv) {t : TaskId}
    (hcur : σ.pxCurrentTCB = some t)
    (hholder : ∀ u, q.pxMutexHolder = some u → u < σ.uxCurrentNumberOfTasks)
    (hcopy : c.copy q = some (item, q₁)) :
    ∃ y σ₁ σ', c.transfer q σ = some (y, item, c.settled t q₁, σ') ∧
      Released c q₁ σ σ₁ ∧ EventWake c.wakeList σ₁ y σ' ∧ σ'.Inv := by
  obtain ⟨_, _, _, hsame, _⟩ := copy_fields hcopy
  obtain ⟨σ₁, hsettle, hreleased, hinv₁⟩ := settle_effect (c := c) h hcur (hsame ▸ hholder)
  have hcur₁ : σ₁.pxCurrentTCB = some t := hreleased.frame.current.trans hcur
  obtain ⟨y, σ', hexec, hinv', hwake⟩ :=
    xTaskRemoveFromEventList_inv hinv₁ c.isEventList_wakeList hcur₁
  refine ⟨y, σ₁, σ', ?_, hreleased, hwake, hinv'⟩
  simp [transfer, hcopy, hsettle, hexec]

/-! ### The blocking section -/

/-- A receive that blocks on a mutex lends its priority to a holder of lower
    priority, when inheritance is on. -/
inductive Boosted (c : Call) (q : Queue) (t : TaskId) (σ : Sched) : Sched → Prop where
  | raised {h : TaskId} {σ₁ : Sched} (hreceive : c.isSend = false)
      (hmutex : q.ucIsMutex = true) (hholder : q.pxMutexHolder = some h)
      (hon : σ.xInheritEnabled = true) (hlow : σ.priority h < σ.priority t)
      (hre : Reprioritised h (σ.priority t) σ σ₁) : Boosted c q t σ σ₁
  | kept (hhigh : c.isSend = false → q.ucIsMutex = true → ∀ h, q.pxMutexHolder = some h →
      σ.xInheritEnabled = true → ¬ σ.priority h < σ.priority t) : Boosted c q t σ σ

theorem Boosted.frame {c : Call} {q : Queue} {t : TaskId} (h : Boosted c q t σ σ₁) :
    SamePlaces σ σ₁ := by
  cases h with
  | raised _ _ _ _ _ hre => exact .of_reprioritised hre
  | kept => exact .refl σ

theorem Call.boost_effect {c : Call} {q : Queue} (h : σ.Inv) {t : TaskId}
    (hcur : σ.pxCurrentTCB = some t)
    (hholder : ∀ u, q.pxMutexHolder = some u → u < σ.uxCurrentNumberOfTasks) :
    ∃ σ₁, c.boost q σ = some σ₁ ∧ Boosted c q t σ σ₁ ∧ σ₁.Inv := by
  by_cases hboost : (q.ucIsMutex && !c.isSend) = true
  · obtain ⟨hmutex, hreceive⟩ := Bool.and_eq_true_iff.mp hboost
    have hreceive : c.isSend = false := by simpa using hreceive
    obtain ⟨σ₁, hexec, hcase⟩ := vTaskPriorityInherit_inv h hholder
    refine ⟨σ₁, by rw [boost, if_pos hboost]; exact hexec, ?_⟩
    rcases hcase with ⟨u, cur, hu, hcur', hinherits, hre⟩ | ⟨hnone, rfl⟩
    · cases hcur.symm.trans hcur'
      exact ⟨.raised hreceive hmutex hu hinherits.1 hinherits.2 hre, hre.inv⟩
    · refine ⟨.kept ?_, h⟩
      intro _ _ u hu hon hlow
      exact hnone u t hu hcur ⟨hon, hlow⟩
  · refine ⟨σ, if_neg hboost, .kept ?_, h⟩
    intro hreceive hmutex
    exact absurd (by simp [hreceive, hmutex]) hboost

theorem Call.enlist_effect {c : Call} {q : Queue} (h : σ.Inv) {t : TaskId}
    (hcur : σ.pxCurrentTCB = some t) (hready : σ.Ready t) (hidle : σ.xIdle ≠ some t)
    (hholder : ∀ u, q.pxMutexHolder = some u → u < σ.uxCurrentNumberOfTasks) :
    ∃ σ₁ σ', c.enlist q σ = some σ' ∧ Boosted c q t σ σ₁ ∧
      Blocked t (some c.waitList) c.xTicksToWait σ₁ σ' := by
  obtain ⟨σ₁, hexec, hboosted, hinv₁⟩ := boost_effect (c := c) h hcur hholder
  have hframe := hboosted.frame
  obtain ⟨σ', hplace, hblocked⟩ := vTaskPlaceOnEventList_inv hinv₁ c.isEventList_waitList
    c.xTicksToWait (hframe.current.trans hcur) (hframe.ready t hready) (hframe.idle ▸ hidle)
  refine ⟨σ₁, σ', ?_, hboosted, hblocked⟩
  simp [enlist, hexec, hplace]

/-! ### Creation -/

/-- No item is in a waiting list of queue `x`. -/
def Sched.NoWaiters (σ : Sched) (x : QueueId) : Prop :=
  ∀ i, (σ.lists.item i).pxContainer ≠ some (xTasksWaitingToSend x) ∧
    (σ.lists.item i).pxContainer ≠ some (xTasksWaitingToReceive x)

theorem prvInitialiseQueueLists_eq (hfree : σ.NoWaiters x) :
    prvInitialiseQueueLists x σ = some σ := by
  simp only [prvInitialiseQueueLists, ListStore.vListInitialise_eq fun i => (hfree i).1,
    ListStore.vListInitialise_eq fun i => (hfree i).2, Option.bind_eq_bind, Option.bind_some]
  rfl

/-- A creation makes the record and leaves the scheduler alone. -/
theorem xQueueCreate_spec (hfree : σ.NoWaiters x) (pxQueue : Option Nat)
    (uxQueueLength uxItemSize : Nat) :
    ((pxQueue = none ∨ uxQueueLength = 0) ∧
      xQueueCreate x pxQueue uxQueueLength uxItemSize σ = some (none, σ)) ∨
    ∃ p, pxQueue = some p ∧ uxQueueLength ≠ 0 ∧
      xQueueCreate x pxQueue uxQueueLength uxItemSize σ =
        some (some (Queue.initial p uxQueueLength uxItemSize), σ) := by
  cases pxQueue with
  | none => exact Or.inl ⟨Or.inl rfl, rfl⟩
  | some p =>
    by_cases hlength : uxQueueLength = 0
    · exact Or.inl ⟨Or.inr hlength, by simp [xQueueCreate, hlength]⟩
    · refine Or.inr ⟨p, rfl, hlength, ?_⟩
      simp [xQueueCreate, hlength, prvInitialiseQueueLists_eq hfree]

/-- A new mutex: one token, no holder. -/
def Queue.newMutex (p : Nat) : Queue :=
  ((Queue.initial p 1 0).setIsMutex.incrMessages).setMutexHolder none

/-- The give inside `xQueueCreateMutex` finds no holder and no waiter. -/
theorem give_newMutex (hfree : σ.NoWaiters x) (p : Nat) :
    (xSemaphoreGive x).transfer (Queue.initial p 1 0).setIsMutex σ =
      some (false, [], Queue.newMutex p, σ) := by
  have hempty : (σ.lists.list (xTasksWaitingToReceive x)).items = [] := by
    refine List.eq_nil_iff_forall_not_mem.mpr ?_
    intro i hi
    exact (hfree i).2 ((σ.lists.linked _ i).mp hi)
  have hwake := xTaskRemoveFromEventList_empty hempty
  simp [xSemaphoreGive, xQueueSendToBack, Call.transfer, Call.copy, prvCopyIn, Call.settle,
    Call.wakeList, vTaskPriorityDisinherit, hwake, Queue.newMutex]

theorem xQueueCreateMutex_spec (hfree : σ.NoWaiters x) (pxQueue : Option Nat) :
    (pxQueue = none ∧ xQueueCreateMutex x pxQueue σ = some (none, σ)) ∨
    ∃ p, pxQueue = some p ∧
      xQueueCreateMutex x pxQueue σ = some (some (Queue.newMutex p), σ) := by
  rcases xQueueCreate_spec hfree pxQueue 1 0 with ⟨hnull, hexec⟩ | ⟨p, hp, _, hexec⟩
  · rcases hnull with hnull | hzero
    · exact Or.inl ⟨hnull, by simp [xQueueCreateMutex, hexec]⟩
    · cases hzero
  · refine Or.inr ⟨p, hp, ?_⟩
    simp [xQueueCreateMutex, hexec, give_newMutex hfree p]

end FlintRTOS
