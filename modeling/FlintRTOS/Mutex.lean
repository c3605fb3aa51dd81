import FlintRTOS.KernelInvariant

/-!
# Mutexes

A mutex is a queue of one empty message, the token, with a holder field.  Token
and holder are updated by the same critical sections, on the fast path and after
a wait alike, so they agree in every state between sections; this is
`mutex_token`.  From it follow mutual exclusion for tasks that give only what
they took, and that a lent priority always has a mutex to account for it.
-/

namespace FlintRTOS

open ListId ItemId

/-- The task of the most recent successful take of `x`. -/
def lastTaker (x : QueueId) : List Event → Option TaskId
  | [] => none
  | .transfer t (.xQueueReceive y _ _) _ :: log => if y = x then some t else lastTaker x log
  | _ :: log => lastTaker x log

/-- `t` has taken `x` and not given it since. -/
def holding (t : TaskId) (x : QueueId) : List Event → Bool
  | [] => false
  | .transfer u c _ :: log => if u = t ∧ c.xQueue = x then !c.isSend else holding t x log
  | .create y _ :: log => if y = x then false else holding t x log
  | _ :: log => holding t x log

variable {x : QueueId} {t u : TaskId} {q : Queue} {k k' : Kernel} {c : Call} {stage : Stage}
  {σ₁ σ : Sched} {e : Event} {log : List Event} {stages : TaskId → Stage}

theorem lastTaker_cons_of_ne (h : e.queue ≠ some x) : lastTaker x (e :: log) = lastTaker x log := by
  cases e with
  | transfer t c item =>
    cases c with
    | prvSend => rfl
    | xQueueReceive y b n => exact if_neg fun heq => h (by rw [← heq]; rfl)
  | _ => rfl

theorem holding_cons_of_ne (h : e.queue ≠ some x) : holding t x (e :: log) = holding t x log := by
  cases e with
  | transfer u c item => exact if_neg fun heq => h (by rw [← heq.2]; rfl)
  | create y contents => exact if_neg fun heq => h (by rw [← heq]; rfl)
  | _ => rfl

/-! ### Token and holder -/

theorem newQueue_mutex {a : Action} {contents : List Item} (h : a.newQueue = some (q, contents))
    (hmutex : q.ucIsMutex = true) : q.uxLength = 1 ∧ q.uxMessagesWaiting = 1 := by
  unfold Action.newQueue at h
  split at h
  · obtain ⟨_, heq⟩ := Option.ite_none_left_eq_some.mp h
    cases heq
    cases hmutex
  · obtain ⟨_, heq⟩ := Option.ite_none_left_eq_some.mp h
    cases heq
    cases hmutex
  · cases h
    exact ⟨rfl, rfl⟩
  · cases h

/-- Either the token is there and nobody holds the mutex, or it is not and the
    holder is the last taker. -/
theorem mutex_token (h : kernel.Reach k) :
    ∀ x q, k.queue x = some q → q.ucIsMutex = true → q.uxLength = 1 ∧
      (q.uxMessagesWaiting = 1 ∧ q.pxMutexHolder = none ∨
        q.uxMessagesWaiting = 0 ∧ ∃ t, q.pxMutexHolder = some t ∧
          lastTaker x k.log = some t) := by
  refine queue_invariant (P := fun x q log => q.ucIsMutex = true → q.uxLength = 1 ∧
    (q.uxMessagesWaiting = 1 ∧ q.pxMutexHolder = none ∨
      q.uxMessagesWaiting = 0 ∧ ∃ t, q.pxMutexHolder = some t ∧
        lastTaker x log = some t)) ?_ ?_ ?_ h.restrict_true
  · intro k a q contents _ hnew hmutex
    obtain ⟨hlength, hcount⟩ := newQueue_mutex hnew hmutex
    exact ⟨hlength, Or.inl ⟨hcount, newQueue_holder hnew⟩⟩
  · intro k t c q q₁ item _ _ _ hpossible hcopy ih hmutex
    obtain ⟨hlength, _, hsame, _, hcount⟩ := Call.copy_fields hcopy
    rw [Call.settled_ucIsMutex] at hmutex
    obtain ⟨hone, htoken⟩ := ih (hsame ▸ hmutex)
    rw [Call.settled_uxLength, Call.settled_uxMessagesWaiting,
      Call.settled_pxMutexHolder _ _ _ hmutex, hlength, hcount]
    refine ⟨hone, ?_⟩
    cases c with
    | prvSend x pvItem n xToFront =>
      -- a give was possible, so the token was away
      have hlt : q.uxMessagesWaiting < q.uxLength := by simpa [Call.possible] using hpossible
      refine Or.inl ⟨?_, rfl⟩
      simp only [Call.isSend, if_true]
      omega
    | xQueueReceive x pvBuffer n =>
      have hpos : 0 < q.uxMessagesWaiting := by simpa [Call.possible] using hpossible
      refine Or.inr ⟨?_, t, rfl, by simp [lastTaker, Call.xQueue]⟩
      simp only [Call.isSend, Bool.false_eq_true, if_false]
      omega
  · intro x q e log hother ih hmutex
    rw [lastTaker_cons_of_ne hother]
    exact ih hmutex

theorem Call.pos_of_possible (hreceive : c.isSend = false) (hpossible : c.possible q = true) :
    0 < q.uxMessagesWaiting := by
  cases c with
  | prvSend => cases hreceive
  | xQueueReceive => simpa [possible] using hpossible

theorem holder_none_of_take (h : kernel.Reach k) (hq : k.queue x = some q)
    (hmutex : q.ucIsMutex = true) (hpos : 0 < q.uxMessagesWaiting) : q.pxMutexHolder = none := by
  rcases (mutex_token h x q hq hmutex).2 with ⟨_, hnone⟩ | ⟨hzero, _⟩
  · exact hnone
  · omega

/-! ### Mutual exclusion -/

/-- The call a task is in and has not carried out yet. -/
def Stage.pending : Stage → Option Call
  | .enter c => some c
  | .block c => some c
  | .wait c => some c
  | _ => none

theorem Stage.call_of_pending (h : stage.pending = some c) : stage.call = some c := by
  cases stage with
  | app => cases h
  | done => cases h
  | _ => exact h

theorem pending_of_ended (hnone : stage.pending = none)
    (hc : (Function.update stages u stage t).pending = some c) :
    t ≠ u ∧ (stages t).pending = some c := by
  have hne : t ≠ u := by
    rintro rfl
    rw [Function.update_self, hnone] at hc
    cases hc
  rw [Function.update_of_ne hne] at hc
  exact ⟨hne, hc⟩

/-- A task comes to another stage of the same pending call. -/
theorem pending_of_kept (hsame : stage.pending = (stages u).pending)
    (hc : (Function.update stages u stage t).pending = some c) : (stages t).pending = some c := by
  by_cases hu : t = u
  · subst hu
    rwa [Function.update_self, hsame] at hc
  · rwa [Function.update_of_ne hu] at hc

/-- Whoever gives a mutex has taken it and not given it since. -/
def Kernel.givesOwn (k : Kernel) : Action → Bool
  | .call c => !c.isSend || (k.queue c.xQueue).all fun q => !q.ucIsMutex ||
      k.sched.pxCurrentTCB.all fun t => holding t c.xQueue k.log
  | _ => true

def GivesOwn (k : Kernel) (a : Action) : Prop := k.givesOwn a = true

instance (k : Kernel) (a : Action) : Decidable (GivesOwn k a) :=
  inferInstanceAs (Decidable (k.givesOwn a = true))

theorem GivesOwn.holding (h : GivesOwn k (.call c)) (hcur : k.sched.pxCurrentTCB = some t)
    (hsend : c.isSend = true) (hq : k.queue c.xQueue = some q) (hmutex : q.ucIsMutex = true) :
    FlintRTOS.holding t c.xQueue k.log = true := by
  simpa [GivesOwn, Kernel.givesOwn, hcur, hsend, hq, hmutex] using h

/-- A give in progress is by a task that has the mutex. -/
theorem giver_holding (h : (kernel.restrict GivesOwn).Reach k) :
    ∀ t c q, (k.stage t).pending = some c → c.isSend = true → k.queue c.xQueue = some q →
      q.ucIsMutex = true → holding t c.xQueue k.log = true := by
  refine kernel_invariant (P := fun k => ∀ t c q, (k.stage t).pending = some c →
    c.isSend = true → k.queue c.xQueue = some q → q.ucIsMutex = true →
      holding t c.xQueue k.log = true) ?_ ?_ h
  · intro t c q hc
    cases hc
  intro k a k' hreach ih hgives heffect
  have hinv := kernel_inv hreach.of_restrict
  cases heffect with
  | quiet | ticked => exact ih
  | opened =>
    intro t c q' hc hsend hq' hmutex
    rcases Kernel.queue_of_update hq' with ⟨hx, _⟩ | ⟨hx, hq'⟩
    · exact absurd hx (hinv.xQueue_ne_fresh (Stage.call_of_pending hc))
    · rw [← ih t c q' hc hsend hq' hmutex]
      exact holding_cons_of_ne (by simpa [Event.queue] using Ne.symm hx)
  | deleted =>
    intro t c q hc hsend hq hmutex
    exact ih t c q hc hsend (Kernel.queue_of_delete hq).2 hmutex
  | @called u c' hcur _ _ _ _ =>
    intro t c q hc hsend hq hmutex
    by_cases ht : t = u
    · subst ht
      have heq : c = c' := by simpa [Stage.pending] using hc.symm
      subst heq
      exact hgives.holding hcur hsend hq hmutex
    · exact ih t c q (by simpa [ht] using hc) hsend hq hmutex
  | @transferred u c' q₀ q₁ item y σ₁ σ' _ _ _ hqueue _ hcopy =>
    intro t c q hc hsend hq hmutex
    obtain ⟨hne, hc⟩ := pending_of_ended (by rfl) hc
    obtain ⟨q, hq, hsame⟩ := Kernel.queue_of_transfer hqueue hcopy hq
    have hheld := ih t c q hc hsend hq (hsame.trans hmutex)
    simpa [holding, Ne.symm hne] using hheld
  | refused | returned =>
    intro t c q hc
    exact ih t c q (pending_of_ended (by rfl) hc).2
  | declined _ _ hstage | enlisted _ _ hstage =>
    intro t c q hc
    exact ih t c q (pending_of_kept (by rw [hstage]; rfl) hc)

theorem holder_of_holding (h : (kernel.restrict GivesOwn).Reach k) :
    ∀ x q, k.queue x = some q → q.ucIsMutex = true → ∀ t, holding t x k.log = true →
      q.pxMutexHolder = some t := by
  refine queue_invariant (P := fun x q log => q.ucIsMutex = true → ∀ t,
    holding t x log = true → q.pxMutexHolder = some t) ?_ ?_ ?_ h
  · intro k a q contents _ _ _ t hheld
    simp [holding] at hheld
  · intro k u c q q₁ item hreach hstage hqueue hpossible hcopy ih hmutex t hheld
    rw [Call.settled_ucIsMutex] at hmutex
    have hmutex' : q.ucIsMutex = true := (Call.copy_fields hcopy).2.2.1 ▸ hmutex
    rw [Call.settled_pxMutexHolder _ _ _ hmutex]
    by_cases ht : u = t
    · subst ht
      have hreceive : c.isSend = false := by simpa [holding] using hheld
      simp [hreceive]
    · -- another task has it: neither a take nor a give by `u` is possible
      have hheld : holding t c.xQueue k.log = true := by simpa [holding, ht] using hheld
      have hholder := ih hmutex' t hheld
      cases hsend : c.isSend with
      | true =>
        have hpending : (k.stage u).pending = some c := by
          rcases hstage with hs | hs
          · rw [hs]; rfl
          · rw [hs]; rfl
        have hgiver := ih hmutex' u (giver_holding hreach u c q hpending hsend hqueue hmutex')
        rw [hholder] at hgiver
        exact absurd (Option.some.inj hgiver).symm ht
      | false =>
        have hpos := Call.pos_of_possible hsend hpossible
        rw [holder_none_of_take hreach.of_restrict hqueue hmutex' hpos] at hholder
        cases hholder
  · intro x q e log hother ih hmutex t hheld
    rw [holding_cons_of_ne hother] at hheld
    exact ih hmutex t hheld

/-- **The mutex protocol.**  In every state between critical sections the token
    and the holder agree, and the holder is the task of the most recent successful
    take.  In runs where each task gives only after its own successful take, at
    most one task is between a successful take and its give. -/
theorem mutex_protocol {k : Kernel} (h : kernel.Reach k) :
    (∀ x q, k.queue x = some q → q.ucIsMutex = true →
      q.uxMessagesWaiting = 1 ∧ q.pxMutexHolder = none ∨
      q.uxMessagesWaiting = 0 ∧ q.pxMutexHolder ≠ none ∧
        q.pxMutexHolder = lastTaker x k.log) ∧
    ((kernel.restrict GivesOwn).Reach k → ∀ x q, k.queue x = some q → q.ucIsMutex = true →
      ∀ t u, holding t x k.log = true → holding u x k.log = true → t = u) := by
  constructor
  · intro x q hq hmutex
    rcases (mutex_token h x q hq hmutex).2 with hfree | ⟨hzero, t, hholder, hlast⟩
    · exact Or.inl hfree
    · refine Or.inr ⟨hzero, ?_, hholder.trans hlast.symm⟩
      rw [hholder]
      exact Option.some_ne_none t
  · intro hown x q hq hmutex t u ht hu
    have hholder := holder_of_holding hown x q hq hmutex
    exact Option.some.inj ((hholder t ht).symm.trans (hholder u hu))

/-- Task 0 takes the mutex; task 1 tries to, and waits. -/
def contendedSchedule : List Action :=
  [.xTaskCreate ⟨true, true⟩ 1, .xTaskCreate ⟨true, true⟩ 1, .vTaskStartScheduler ⟨true, true⟩,
    .xQueueCreateMutex (some 0), .call (xSemaphoreTake 0 portMaxDelay), .resume, .resume,
    .tick, .tick, .call (xSemaphoreTake 0 portMaxDelay), .resume, .resume, .resume]

theorem mutex_protocol_contended : ∃ k q, (kernel.restrict GivesOwn).Reach k ∧
    k.queue 0 = some q ∧ q.ucIsMutex = true ∧ q.uxMessagesWaiting = 0 ∧
    q.pxMutexHolder = lastTaker 0 k.log ∧ lastTaker 0 k.log = some 0 ∧
    k.sched.eventList 1 = some (xTasksWaitingToReceive 0) ∧
    ∀ t, holding t 0 k.log = true → t = 0 := by
  obtain ⟨k, hreach, hk⟩ := (kernel.restrict GivesOwn).exists_reach contendedSchedule
    (fun k => (k.queue 0).any (fun q => q.ucIsMutex && decide (q.uxMessagesWaiting = 0)) ∧
      lastTaker 0 k.log = some 0 ∧ holding 0 0 k.log = true ∧
      k.sched.eventList 1 = some (xTasksWaitingToReceive 0)) (by decide +kernel)
  obtain ⟨hany, hlast, hheld, hwait⟩ := of_decide_eq_true hk
  obtain ⟨q, hq, hqs⟩ := (Option.any_eq_true _ _).mp hany
  obtain ⟨hmutex, hzero⟩ := Bool.and_eq_true_iff.mp hqs
  obtain ⟨htoken, hexcl⟩ := mutex_protocol hreach.of_restrict
  have hzero := of_decide_eq_true hzero
  refine ⟨k, q, hreach, hq, hmutex, hzero, ?_, hlast, hwait, ?_⟩
  · rcases htoken 0 q hq hmutex with ⟨hone, _⟩ | ⟨_, _, hholder⟩
    · omega
    · exact hholder
  · intro t ht
    exact hexcl hreach 0 q hq hmutex t 0 ht hheld

/-! ### Lent priorities -/

/-- Every priority is at least the base priority, and one above it is lent by a
    waiter of a mutex that the task holds. -/
structure BoostsAccounted (k : Kernel) : Prop where
  base_le : ∀ t, t < k.sched.uxCurrentNumberOfTasks →
    k.sched.basePriority t ≤ k.sched.priority t
  holds : ∀ t, t < k.sched.uxCurrentNumberOfTasks → k.sched.priority t ≠ k.sched.basePriority t →
    ∃ x q, k.queue x = some q ∧ q.ucIsMutex = true ∧ q.pxMutexHolder = some t

/-- A step keeps the account when every priority stays or is the base priority,
    and every holder that is still boosted still holds something. -/
theorem BoostsAccounted.of_step (h : BoostsAccounted k)
    (hpriority : ∀ t, t < k'.sched.uxCurrentNumberOfTasks →
      k'.sched.priority t = k'.sched.basePriority t ∨ t < k.sched.uxCurrentNumberOfTasks ∧
        k'.sched.priority t = k.sched.priority t ∧
        k'.sched.basePriority t = k.sched.basePriority t)
    (hheld : ∀ x q t, k.queue x = some q → q.ucIsMutex = true → q.pxMutexHolder = some t →
      k'.sched.priority t ≠ k'.sched.basePriority t →
      ∃ x q, k'.queue x = some q ∧ q.ucIsMutex = true ∧ q.pxMutexHolder = some t) :
    BoostsAccounted k' := by
  constructor
  · intro t ht
    rcases hpriority t ht with heq | ⟨hlt, hsame, hbase⟩
    · exact Nat.le_of_eq heq.symm
    · rw [hsame, hbase]
      exact h.base_le t hlt
  · intro t ht hne
    rcases hpriority t ht with heq | ⟨hlt, hsame, hbase⟩
    · exact absurd heq hne
    · obtain ⟨x, q, hq, hmutex, hholder⟩ := h.holds t hlt (by rw [← hsame, ← hbase]; exact hne)
      exact hheld x q t hq hmutex hholder hne

theorem Quiet.priority {σ' : Sched} (h : Quiet σ σ') (ht : t < σ'.uxCurrentNumberOfTasks) :
    σ'.priority t = σ'.basePriority t ∨ t < σ.uxCurrentNumberOfTasks ∧
      σ'.priority t = σ.priority t ∧ σ'.basePriority t = σ.basePriority t := by
  by_cases hlt : t < σ.uxCurrentNumberOfTasks
  · refine Or.inr ⟨hlt, ?_, ?_⟩
    · rw [Sched.priority, h.tcb t hlt]; rfl
    · rw [Sched.basePriority, h.tcb t hlt]; rfl
  · exact Or.inl (h.added t (Nat.not_lt.mp hlt) ht)

theorem Released.priority (h : Released c q σ σ₁) (t : TaskId) :
    σ₁.basePriority t = σ.basePriority t ∧
      (σ₁.priority t = σ.basePriority t ∨ σ₁.priority t = σ.priority t) ∧
      (c.isSend = true → q.ucIsMutex = true → q.pxMutexHolder = some t →
        σ₁.priority t = σ.basePriority t) := by
  cases h with
  | @restored u _ _ _ hholder _ hre =>
    refine ⟨hre.basePriority t, ?_, ?_⟩
    · rw [hre.priority]
      split
      · rename_i heq
        rw [heq]
        exact Or.inl rfl
      · exact Or.inr rfl
    · intro _ _ ht
      cases hholder.symm.trans ht
      rw [hre.priority, if_pos rfl]
  | kept hbase => exact ⟨rfl, Or.inr rfl, fun hsend hmutex ht => hbase hsend hmutex t ht⟩

/-- A transfer: the giver's holder is back at its base priority, and a take finds
    no holder. -/
theorem BoostsAccounted.of_transfer (h : BoostsAccounted k) (hreach : kernel.Reach k) {q₁ : Queue}
    {item : Item} {y : Bool} (hqueue : k.queue c.xQueue = some q) (hpossible : c.possible q = true)
    (hcopy : c.copy q = some (item, q₁)) (hreleased : Released c q₁ k.sched σ₁)
    (hwake : EventWake c.wakeList σ₁ y k'.sched)
    (hqueues : k'.queue = Function.update k.queue c.xQueue (some (c.settled t q₁))) :
    BoostsAccounted k' := by
  obtain ⟨_, _, hsame, hsameHolder, _⟩ := Call.copy_fields hcopy
  have hprio : ∀ u, k'.sched.basePriority u = k.sched.basePriority u ∧
      (k'.sched.priority u = k.sched.basePriority u ∨
        k'.sched.priority u = k.sched.priority u) := by
    intro u
    rw [(hwake.priorities u).1, (hwake.priorities u).2]
    exact ⟨(hreleased.priority u).1, (hreleased.priority u).2.1⟩
  have hnumber : k'.sched.uxCurrentNumberOfTasks = k.sched.uxCurrentNumberOfTasks := by
    obtain ⟨top, lists, heq⟩ := hwake.frame
    rw [heq]
    exact hreleased.frame.number
  refine h.of_step ?_ ?_
  · intro u hu
    rcases (hprio u).2 with heq | heq
    · exact Or.inl (heq.trans (hprio u).1.symm)
    · exact Or.inr ⟨hnumber ▸ hu, heq, (hprio u).1⟩
  · intro x q' u hq' hmutex hholder hne
    have hx : x ≠ c.xQueue := by
      rintro rfl
      cases hqueue.symm.trans hq'
      cases hsend : c.isSend with
      | true =>
        have hback := (hreleased.priority u).2.2 hsend (hsame ▸ hmutex) (hsameHolder ▸ hholder)
        apply hne
        rw [(hwake.priorities u).1, hback, (hprio u).1]
      | false =>
        have hpos : 0 < q.uxMessagesWaiting := Call.pos_of_possible hsend hpossible
        rw [holder_none_of_take hreach hqueue hmutex hpos] at hholder
        cases hholder
    exact ⟨x, q', by rw [hqueues, Function.update_of_ne hx, hq'], hmutex, hholder⟩

/-- A task blocks: the holder it boosts holds the mutex it blocks on. -/
theorem BoostsAccounted.of_enlist (h : BoostsAccounted k) (hqueue : k.queue c.xQueue = some q)
    (hboosted : Boosted c q t k.sched σ₁)
    (hblocked : Blocked t (some c.waitList) c.xTicksToWait σ₁ k'.sched)
    (hqueues : k'.queue = k.queue) : BoostsAccounted k' := by
  have hnumber : k'.sched.uxCurrentNumberOfTasks = k.sched.uxCurrentNumberOfTasks := by
    obtain ⟨lists, heq⟩ := hblocked.frame
    rw [heq]
    exact hboosted.frame.number
  cases hboosted with
  | kept =>
    refine h.of_step ?_ fun x q u hq hmutex hholder _ => ⟨x, q, hqueues ▸ hq, hmutex, hholder⟩
    intro u hu
    exact Or.inr ⟨hnumber ▸ hu, (hblocked.priorities u).1, (hblocked.priorities u).2⟩
  | @raised g _ _ hmutex hholder _ hlow hre =>
    have hprio : ∀ u, k'.sched.priority u =
        if u = g then k.sched.priority t else k.sched.priority u := by
      intro u
      rw [(hblocked.priorities u).1, hre.priority]
    have hbase : ∀ u, k'.sched.basePriority u = k.sched.basePriority u := by
      intro u
      rw [(hblocked.priorities u).2, hre.basePriority]
    constructor
    · intro u hu
      rw [hbase, hprio]
      have hle := h.base_le u (hnumber ▸ hu)
      split
      · rename_i heq
        subst heq
        exact Nat.le_trans hle (Nat.le_of_lt hlow)
      · exact hle
    · intro u hu hne
      rw [hqueues]
      by_cases heq : u = g
      · subst heq
        exact ⟨c.xQueue, q, hqueue, hmutex, hholder⟩
      · refine h.holds u (hnumber ▸ hu) ?_
        rwa [hprio, hbase, if_neg heq] at hne

theorem boosts_accounted (h : kernel.Reach k) : BoostsAccounted k := by
  refine kernel_invariant (P := BoostsAccounted) ⟨?_, ?_⟩ ?_ h.restrict_true
  · intro t ht
    cases ht
  · intro t ht
    cases ht
  intro k a k' hreach ih _ heffect
  have hreach := hreach.of_restrict
  have hinv := kernel_inv hreach
  cases heffect with
  | called | refused | declined | returned => exact ⟨ih.base_le, ih.holds⟩
  | quiet hquiet =>
    exact ih.of_step (fun t => hquiet.priority) fun x q t hq hmutex hholder _ =>
      ⟨x, q, hq, hmutex, hholder⟩
  | opened _ hquiet =>
    refine ih.of_step (fun t => hquiet.priority) ?_
    intro x q t hq hmutex hholder _
    have hne : x ≠ k.uxQueues := by
      rintro rfl
      rw [hinv.fresh _ (Nat.le_refl _)] at hq
      cases hq
    exact ⟨x, q, by simpa [hne] using hq, hmutex, hholder⟩
  | @deleted y hunused =>
    refine ih.of_step (fun t ht => Or.inr ⟨ht, rfl, rfl⟩) ?_
    intro x q t hq hmutex hholder _
    have hne : x ≠ y := by
      rintro rfl
      rw [Kernel.unused_holder hunused hq] at hholder
      cases hholder
    exact ⟨x, q, by simpa [hne] using hq, hmutex, hholder⟩
  | transferred _ _ _ hqueue hpossible hcopy hreleased hwake =>
    exact ih.of_transfer hreach hqueue hpossible hcopy hreleased hwake rfl
  | enlisted _ _ _ hqueue hboosted hblocked => exact ih.of_enlist hqueue hboosted hblocked rfl
  | @ticked σ hwoke =>
    have hnumber : σ.uxCurrentNumberOfTasks = k.sched.uxCurrentNumberOfTasks := by
      obtain ⟨top, lists, rfl⟩ := hwoke.frame
      rfl
    refine ih.of_step ?_ fun x q t hq hmutex hholder _ => ⟨x, q, hq, hmutex, hholder⟩
    intro t ht
    exact Or.inr ⟨hnumber ▸ ht, (hwoke.priorities t).1, (hwoke.priorities t).2⟩

/-- **Boosts are never leaked.**  In every reachable state, with inheritance
    switched on or off at any time, a task's priority is at least its base priority,
    and a task whose priority differs from it holds a mutex; so a task that holds
    none runs at its base priority. -/
theorem boosts_not_leaked {k : Kernel} (h : kernel.Reach k) {t : TaskId}
    (ht : t < k.sched.uxCurrentNumberOfTasks) :
    k.sched.basePriority t ≤ k.sched.priority t ∧
    (k.sched.priority t ≠ k.sched.basePriority t →
      ∃ x q, k.queue x = some q ∧ q.ucIsMutex = true ∧ q.pxMutexHolder = some t) ∧
    ((∀ x q, k.queue x = some q → q.ucIsMutex = true → q.pxMutexHolder ≠ some t) →
      k.sched.priority t = k.sched.basePriority t) := by
  have hacc := boosts_accounted h
  refine ⟨hacc.base_le t ht, hacc.holds t ht, ?_⟩
  intro hnone
  by_contra hne
  obtain ⟨x, q, hq, hmutex, hholder⟩ := hacc.holds t ht hne
  exact hnone x q hq hmutex hholder

/-- Task 0, of priority 1, takes the mutex and is preempted by task 1, of priority
    3, which blocks on it. -/
def lentSchedule : List Action :=
  [.xTaskCreate ⟨true, true⟩ 1, .xTaskCreate ⟨true, true⟩ 3, .vTaskStartScheduler ⟨true, true⟩,
    .xQueueCreateMutex (some 0), .call (xSemaphoreTake 0 portMaxDelay), .resume, .resume,
    .tick, .call (xSemaphoreTake 0 portMaxDelay), .resume, .resume]

theorem boosts_not_leaked_lent : ∃ k, kernel.Reach k ∧ k.sched.basePriority 0 = 1 ∧
    k.sched.priority 0 = 3 ∧
    ∃ x q, k.queue x = some q ∧ q.ucIsMutex = true ∧ q.pxMutexHolder = some 0 := by
  obtain ⟨k, hreach, hk⟩ := kernel.exists_reach lentSchedule
    (fun k => k.sched.basePriority 0 = 1 ∧ k.sched.priority 0 = 3 ∧
      k.sched.uxCurrentNumberOfTasks = 3) (by decide +kernel)
  obtain ⟨hbase, hprio, hnumber⟩ := of_decide_eq_true hk
  refine ⟨k, hreach, hbase, hprio, ?_⟩
  refine (boosts_not_leaked hreach (by rw [hnumber]; decide)).2.1 ?_
  rw [hbase, hprio]
  decide

end FlintRTOS
