import FlintRTOS.QueueBlocking
import FlintRTOS.QueueHistory
import Mathlib.Data.Finset.Card

/-!
# Who is owed a transfer

A transfer wakes one task that waits for it: a send the first receiver, a receive
the first sender.  It does not hand anything over.  The woken task looks at the
queue again when it runs, once, and fails if another task has been there first.

`P` says how long a call is entitled to wait: `P c i` when the call `c` may not
fail `i` ticks after it was made.  A task is *owed* a transfer from
the time it is woken until it looks, while it is entitled to wait; `debt` counts
the owed tasks of each side of a queue.  A section *steals* when it takes what
owed tasks need: it serves a task that is not owed while there is no more than
the debt.  If no section steals, the debt stays covered by the messages, or by
the free slots, and a call does not fail before its time.
-/

namespace FlintRTOS

open ListId ItemId

/-- Ticks since the latest call of `t`. -/
def ticksSinceCall (t : TaskId) : List Event → Nat
  | [] => 0
  | .call u _ :: log => if u = t then 0 else ticksSinceCall t log
  | .tick :: log => ticksSinceCall t log + 1
  | .transfer .. :: log | .ret .. :: log | .create .. :: log | .delete _ :: log =>
      ticksSinceCall t log

/-- What there is for a sender, or for a receiver. -/
def Queue.available (q : Queue) (send : Bool) : Nat :=
  if send then q.uxLength - q.uxMessagesWaiting else q.uxMessagesWaiting

variable {c : Call} {q : Queue}

theorem Call.possible_iff : c.possible q = true ↔ 0 < q.available c.isSend := by
  cases c with
  | prvSend =>
    simp only [possible, Queue.available, isSend, if_true, decide_eq_true_eq]
    exact Nat.sub_pos_iff_lt.symm
  | xQueueReceive => simp [possible, Queue.available, isSend]

theorem Call.available_own {t : TaskId} {q₁ : Queue} {item : Item} (hpossible : c.possible q = true)
    (hcopy : c.copy q = some (item, q₁)) :
    (c.settled t q₁).available c.isSend + 1 = q.available c.isSend := by
  obtain ⟨hlength, _, _, _, hcount⟩ := copy_fields hcopy
  rw [possible_iff] at hpossible
  cases hsend : c.isSend with
  | true =>
    simp only [hsend, Queue.available, if_true] at hpossible hcount
    simp only [Queue.available, settled_uxLength, settled_uxMessagesWaiting, hlength, hcount,
      if_true]
    omega
  | false =>
    simp only [hsend, Queue.available, Bool.false_eq_true, if_false] at hpossible hcount
    simp only [Queue.available, settled_uxMessagesWaiting, hcount, Bool.false_eq_true, if_false]
    omega

/-- It adds one to the other side; a receive frees a slot only of a queue whose
    count is within its length. -/
theorem Call.available_other {t : TaskId} {q₁ : Queue} {item : Item}
    (hle : c.isSend = false → q.uxMessagesWaiting ≤ q.uxLength) (hpossible : c.possible q = true)
    (hcopy : c.copy q = some (item, q₁)) :
    (c.settled t q₁).available (!c.isSend) = q.available (!c.isSend) + 1 := by
  obtain ⟨hlength, _, _, _, hcount⟩ := copy_fields hcopy
  rw [possible_iff] at hpossible
  cases hsend : c.isSend with
  | true =>
    simp only [hsend, if_true] at hcount
    simp [Queue.available, hcount]
  | false =>
    have hle := hle hsend
    simp only [hsend, Queue.available, Bool.false_eq_true, if_false] at hpossible hcount
    simp only [Queue.available, settled_uxLength, settled_uxMessagesWaiting, hlength, hcount,
      Bool.not_false, if_true]
    omega

theorem Call.wakeList_eq_waitList {c' : Call} (h : c.wakeList = c'.waitList) :
    c'.xQueue = c.xQueue ∧ c'.isSend = !c.isSend := by
  cases c with
  | prvSend x =>
    cases c' with
    | prvSend => simp [wakeList, waitList] at h
    | xQueueReceive y =>
      exact ⟨by simpa [wakeList, waitList, xQueue] using h.symm, rfl⟩
  | xQueueReceive x =>
    cases c' with
    | prvSend y => exact ⟨by simpa [wakeList, waitList, xQueue] using h.symm, rfl⟩
    | xQueueReceive => simp [wakeList, waitList] at h

section

variable (P : Call → Nat → Bool)

/-- `u` was woken to look at `x` again, has not looked yet, and may not fail. -/
def Kernel.owed (k : Kernel) (x : QueueId) (send : Bool) (u : TaskId) : Bool :=
  match k.stage u with
  | .wait c => decide (c.xQueue = x ∧ c.isSend = send ∧ k.sched.eventList u = none) &&
      P c (ticksSinceCall u k.log)
  | .app | .enter _ | .block _ | .done .. => false

def Kernel.owedTasks (k : Kernel) (x : QueueId) (send : Bool) : Finset TaskId :=
  (Finset.range k.sched.uxCurrentNumberOfTasks).filter fun u => k.owed P x send u = true

def Kernel.debt (k : Kernel) (x : QueueId) (send : Bool) : Nat := (k.owedTasks P x send).card

/-- The next section does not steal: it serves an owed task, or leaves enough for
    all that are owed. -/
def NoSteal (k : Kernel) (a : Action) : Prop :=
  ∀ r ∈ k.transferring a, k.owed P r.2.1.xQueue r.2.1.isSend r.1 = true ∨
    k.debt P r.2.1.xQueue r.2.1.isSend < r.2.2.available r.2.1.isSend

instance (k : Kernel) (a : Action) : Decidable (NoSteal P k a) :=
  inferInstanceAs (Decidable (∀ r ∈ _, _))

/-- There is enough for every owed task. -/
def Covered (k : Kernel) : Prop :=
  ∀ x q send, k.queue x = some q → k.debt P x send ≤ q.available send

variable {P}

variable {k k' : Kernel} {x : QueueId} {send y : Bool} {u t : TaskId} {q₁ : Queue} {item : Item}
  {σ' σ₁ : Sched} {a : Action}

theorem Kernel.owed_iff :
    k.owed P x send u = true ↔ ∃ c, k.stage u = .wait c ∧ c.xQueue = x ∧ c.isSend = send ∧
      k.sched.eventList u = none ∧ P c (ticksSinceCall u k.log) = true := by
  unfold owed
  cases hstage : k.stage u with
  | wait c =>
    simp only [Bool.and_eq_true, decide_eq_true_eq, and_assoc]
    constructor
    · rintro ⟨hx, hsend, hevent, hp⟩
      exact ⟨c, rfl, hx, hsend, hevent, hp⟩
    · rintro ⟨c', hc, h⟩
      cases hc
      exact h
  | app | enter | block | done => simp

theorem Kernel.Inv.mem_owedTasks (h : k.Inv) :
    u ∈ k.owedTasks P x send ↔ k.owed P x send u = true := by
  rw [owedTasks, Finset.mem_filter, Finset.mem_range]
  refine ⟨And.right, fun hu => ⟨?_, hu⟩⟩
  obtain ⟨c, hstage, _⟩ := owed_iff.mp hu
  exact (h.busy u c (by rw [hstage]; rfl)).1

theorem Kernel.owed_of_mem (hu : u ∈ k.owedTasks P x send) : k.owed P x send u = true :=
  (Finset.mem_filter.mp hu).2

theorem Kernel.owed_of_congr (hu : k'.owed P x send u = true) (hstage : k'.stage u = k.stage u)
    (hevent : k'.sched.eventList u = k.sched.eventList u)
    (hticks : ticksSinceCall u k'.log = ticksSinceCall u k.log) : k.owed P x send u = true := by
  unfold owed at hu ⊢
  rwa [hstage, hevent, hticks] at hu

/-- A task is not owed once its stage is another than `wait`. -/
theorem Kernel.owed_of_update {stage : Stage} (hu : k'.owed P x send u = true)
    (hstages : k'.stage = Function.update k.stage t stage) (hwait : ∀ c, stage ≠ .wait c)
    (hevent : k'.sched.eventList u = k.sched.eventList u)
    (hticks : u ≠ t → ticksSinceCall u k'.log = ticksSinceCall u k.log) :
    k.owed P x send u = true := by
  have hne : u ≠ t := by
    rintro rfl
    obtain ⟨c, hc, _⟩ := owed_iff.mp hu
    rw [hstages, Function.update_self] at hc
    exact hwait c hc
  exact owed_of_congr hu (by rw [hstages, Function.update_of_ne hne]) hevent (hticks hne)

theorem debt_le_of_owed (hinv : k.Inv)
    (h : ∀ u, k'.owed P x send u = true → k.owed P x send u = true) :
    k'.debt P x send ≤ k.debt P x send := by
  refine Finset.card_le_card fun u hu => ?_
  exact hinv.mem_owedTasks.mpr (h u (Kernel.owed_of_mem hu))

/-! ### A transfer that does not steal -/

/-- A task that is owed after a transfer was waiting before it. -/
theorem waits_of_transfer
    (hk' : k' = ((((k.setSched σ').setQueue c.xQueue (some q)).setYielding t y).setStage t
      (.done c pdPass item)).record (.transfer t c item)) (hu : k'.owed P x send u = true) :
    ∃ c', k.stage u = .wait c' ∧ c'.xQueue = x ∧ c'.isSend = send ∧
      P c' (ticksSinceCall u k.log) = true := by
  subst hk'
  obtain ⟨c', hstage, hx, hsend, _, hp⟩ := Kernel.owed_iff.mp hu
  have hne : u ≠ t := by
    rintro rfl
    simp at hstage
  exact ⟨c', by simpa [hne] using hstage, hx, hsend, hp⟩

/-- A transfer can only add the task it wakes, and that is on the other side. -/
theorem owed_of_transfer (hinv : k.Inv) (hreleased : Released c q₁ k.sched σ₁)
    (hwake : EventWake c.wakeList σ₁ y σ')
    (hu : (((((k.setSched σ').setQueue c.xQueue (some (c.settled t q₁))).setYielding t y).setStage
      t (.done c pdPass item)).record (.transfer t c item)).owed P x send u = true) :
    u ≠ t ∧ (k.owed P x send u = true ∨
      k.sched.eventList u = some c.wakeList ∧ x = c.xQueue ∧ send = !c.isSend) := by
  obtain ⟨c', hstage, hx, hsend, hevent, hp⟩ := Kernel.owed_iff.mp hu
  have hne : u ≠ t := by
    rintro rfl
    simp at hstage
  have hstage : k.stage u = .wait c' := by simpa [hne] using hstage
  refine ⟨hne, ?_⟩
  by_cases hwoken : k.sched.eventList u = some c.wakeList
  · right
    obtain ⟨c'', hstage', hlist⟩ := hinv.waits u _ hwoken
    cases hstage.symm.trans hstage'
    obtain ⟨hx', hsend'⟩ := Call.wakeList_eq_waitList hlist
    exact ⟨hwoken, hx.symm.trans hx', hsend.symm.trans hsend'⟩
  · left
    have hkept := hreleased.frame.event u
    have hfree : k.sched.eventList u = none := by
      rw [← hkept, ← hwake.eventList_of_ne (hkept ▸ hwoken)]
      exact hevent
    exact Kernel.owed_iff.mpr ⟨c', hstage, hx, hsend, hfree, hp⟩

/-- The other side of the queue: at most one more task is owed. -/
theorem debt_le_of_wake (hinv : k.Inv) (hreleased : Released c q₁ k.sched σ₁)
    (hwake : EventWake c.wakeList σ₁ y σ')
    (hk' : k' = ((((k.setSched σ').setQueue c.xQueue (some (c.settled t q₁))).setYielding t
      y).setStage t (.done c pdPass item)).record (.transfer t c item)) (x : QueueId)
    (send : Bool) : k'.debt P x send ≤ k.debt P x send + 1 := by
  obtain ⟨w, hother⟩ := hwake.eventList_of_ne_woken
  have hsub : k'.owedTasks P x send ⊆ insert w (k.owedTasks P x send) := by
    intro u hu
    have hu := Kernel.owed_of_mem hu
    rw [Finset.mem_insert, hinv.mem_owedTasks]
    by_cases huw : u = w
    · exact Or.inl huw
    · right
      subst hk'
      have hne := (owed_of_transfer hinv hreleased hwake hu).1
      refine Kernel.owed_of_congr hu ?_ ?_ rfl
      · simp [hne]
      · exact (hother u huw).trans (hreleased.frame.event u)
  exact (Finset.card_le_card hsub).trans (Finset.card_insert_le _ _)

/-- The side that is served: the caller is no longer owed. -/
theorem debt_own_of_transfer (hinv : k.Inv) (hpossible : c.possible q = true)
    (hcopy : c.copy q = some (item, q₁)) (hreleased : Released c q₁ k.sched σ₁)
    (hwake : EventWake c.wakeList σ₁ y σ')
    (hk' : k' = ((((k.setSched σ').setQueue c.xQueue (some (c.settled t q₁))).setYielding t
      y).setStage t (.done c pdPass item)).record (.transfer t c item))
    (hle : k.debt P c.xQueue c.isSend ≤ q.available c.isSend)
    (hsteal : k.owed P c.xQueue c.isSend t = true ∨
      k.debt P c.xQueue c.isSend < q.available c.isSend) :
    k'.debt P c.xQueue c.isSend ≤ (c.settled t q₁).available c.isSend := by
  have hown := Call.available_own (t := t) hpossible hcopy
  have hsub : k'.owedTasks P c.xQueue c.isSend ⊆
      (k.owedTasks P c.xQueue c.isSend).erase t := by
    intro u hu
    have hu := Kernel.owed_of_mem hu
    subst hk'
    obtain ⟨hne, howed | ⟨_, _, hside⟩⟩ := owed_of_transfer hinv hreleased hwake hu
    · exact Finset.mem_erase.mpr ⟨hne, hinv.mem_owedTasks.mpr howed⟩
    · exact absurd hside (by cases c.isSend <;> decide)
  have hcard := Finset.card_le_card hsub
  simp only [Kernel.debt] at hle hsteal ⊢
  rcases hsteal with howed | hlt
  · rw [Finset.card_erase_of_mem (hinv.mem_owedTasks.mpr howed)] at hcard
    have hpos := Finset.card_pos.mpr ⟨t, hinv.mem_owedTasks.mpr howed⟩
    omega
  · have herase := Finset.card_erase_le (a := t) (s := k.owedTasks P c.xQueue c.isSend)
    omega

theorem covered_of_transfer (hinv : k.Inv) (hfits : ∀ t c q, k.stage t = .wait c → c.isSend = true →
      P c (ticksSinceCall t k.log) = true → k.queue c.xQueue = some q →
        q.uxMessagesWaiting ≤ q.uxLength) (h : Covered P k) (hsteal : NoSteal P k a)
    (htransfer : k.transferring a = some (t, c, q)) (heffect : KernelEffect k a k') :
    Covered P k' := by
  obtain ⟨_, _, _, _, hqueue, hpossible⟩ := Kernel.transferring_inv htransfer
  obtain ⟨item, q₁, y, σ₁, σ', hcopy, hreleased, hwake, hk'⟩ := heffect.of_transferring htransfer
  intro x q' send hq'
  have hq' : Function.update k.queue c.xQueue (some (c.settled t q₁)) x = some q' := by
    rw [hk'] at hq'
    exact hq'
  rcases Kernel.queue_of_update hq' with ⟨rfl, rfl⟩ | ⟨hx, hq'⟩
  · by_cases hside : send = c.isSend
    · subst hside
      exact debt_own_of_transfer hinv hpossible hcopy hreleased hwake hk' (h _ q _ hqueue)
        (hsteal (t, c, q) htransfer)
    · -- the other side: one more is there, and at most one more task is owed
      have hside : send = !c.isSend := by
        cases hs : c.isSend <;> cases send <;> simp_all
      subst hside
      by_cases hnone : k'.debt P c.xQueue (!c.isSend) = 0
      · exact hnone ▸ Nat.zero_le _
      obtain ⟨u, hu⟩ := Finset.card_pos.mp (Nat.pos_of_ne_zero hnone)
      obtain ⟨c', hstage', hx', hsend', hp'⟩ := waits_of_transfer hk' (Kernel.owed_of_mem hu)
      have hother := Call.available_other (t := t) (fun hreceive => hfits u c' q hstage'
        (hsend'.trans (by rw [hreceive]; rfl)) hp' (hx' ▸ hqueue)) hpossible hcopy
      have hle := h _ q (!c.isSend) hqueue
      have hwoken := debt_le_of_wake (P := P) hinv hreleased hwake hk' c.xQueue (!c.isSend)
      omega
  · refine Nat.le_trans (debt_le_of_owed hinv ?_) (h x q' send hq')
    intro u hu
    subst hk'
    obtain ⟨_, howed | ⟨_, hx', _⟩⟩ := owed_of_transfer hinv hreleased hwake hu
    · exact howed
    · exact absurd hx' hx

/-! ### Every step -/

/-- Only a tick could make a waiting task owed without a transfer, and a task it
    wakes is no longer entitled to wait (`hdue`). -/
theorem covered_step (hinv : k.Inv) (hfits : ∀ t c q, k.stage t = .wait c → c.isSend = true →
      P c (ticksSinceCall t k.log) = true → k.queue c.xQueue = some q →
        q.uxMessagesWaiting ≤ q.uxLength) (hanti : ∀ c i, P c (i + 1) = true → P c i = true)
    (hdue : ∀ t c, k.stage t = .wait c → k.sched.eventList t ≠ none →
      (k.sched.setTickCount (k.sched.xTickCount + 1)).Due t →
        P c (ticksSinceCall t k.log + 1) = false) (h : Covered P k) (hsteal : NoSteal P k a)
    (heffect : KernelEffect k a k') : Covered P k' := by
  -- where the queue is the same and nobody new is owed
  have hkept : ∀ {x q send}, k.queue x = some q →
      (∀ u, k'.owed P x send u = true → k.owed P x send u = true) →
        k'.debt P x send ≤ q.available send :=
    fun hq howed => Nat.le_trans (debt_le_of_owed hinv howed) (h _ _ _ hq)
  cases heffect with
  | transferred hcur hrun hstage hqueue hpossible hcopy hreleased hwake =>
    exact covered_of_transfer hinv hfits h hsteal
      (Kernel.transferring_eq hcur hrun hstage hqueue hpossible)
      (.transferred hcur hrun hstage hqueue hpossible hcopy hreleased hwake)
  | quiet hquiet =>
    intro x q send hq
    exact hkept hq fun u hu => Kernel.owed_of_congr hu rfl (hquiet.event u) rfl
  | @opened _ q₀ contents σ _ hquiet =>
    intro x q send hq
    have howed : ∀ u, (k.setSched σ |>.addQueue q₀ contents).owed P x send u = true →
        k.owed P x send u = true :=
      fun u hu => Kernel.owed_of_congr hu rfl (hquiet.event u) rfl
    rcases Kernel.queue_of_update hq with ⟨hx, _⟩ | ⟨_, hq⟩
    · -- nobody waits on a queue that has just been made
      refine Nat.le_trans (debt_le_of_owed hinv howed) ?_
      refine Nat.le_trans (Nat.le_of_eq (Finset.card_eq_zero.mpr ?_)) (Nat.zero_le _)
      refine Finset.eq_empty_of_forall_notMem fun u hu => ?_
      obtain ⟨c, hstage, hxc, _⟩ := Kernel.owed_iff.mp (Kernel.owed_of_mem hu)
      exact hinv.xQueue_ne_fresh (t := u) (c := c) (by rw [hstage]; rfl) (hxc.trans hx)
    · exact hkept hq howed
  | deleted =>
    intro x q send hq
    exact hkept (Kernel.queue_of_delete hq).2 fun u hu => hu
  | called =>
    intro x q send hq
    refine hkept hq fun u hu => Kernel.owed_of_update hu rfl (by simp) rfl fun hu => ?_
    simp [ticksSinceCall, Ne.symm hu]
  | refused | declined | returned =>
    intro x q send hq
    exact hkept hq fun u hu => Kernel.owed_of_update hu rfl (by simp) rfl fun _ => rfl
  | @enlisted t c q σ₁ σ' _ _ _ _ hboosted hblocked =>
    intro x q send hq
    refine hkept hq fun u hu => ?_
    -- the caller is on the list, not off it
    have hne : u ≠ t := by
      rintro rfl
      obtain ⟨_, _, _, _, hfree, _⟩ := Kernel.owed_iff.mp hu
      cases hblocked.event.symm.trans hfree
    refine Kernel.owed_of_congr hu ?_ ?_ rfl
    · simp [hne]
    · change σ'.eventList u = _
      rw [← hboosted.frame.event u]
      simp only [Sched.eventList, (hblocked.other u hne).2]
  | @ticked σ hwoke =>
    intro x q send hq
    refine hkept hq fun u hu => ?_
    obtain ⟨c, hstage, hx, hsend, hfree, hp⟩ := Kernel.owed_iff.mp hu
    have hfree : σ.eventList u = none := (quiet_switch σ).event u ▸ hfree
    have hp : P c (ticksSinceCall u k.log + 1) = true := hp
    refine Kernel.owed_iff.mpr ⟨c, hstage, hx, hsend, ?_, hanti _ _ hp⟩
    by_contra hlinked
    have hd : (k.sched.setTickCount (k.sched.xTickCount + 1)).Due u := by
      by_contra hnot
      refine hlinked (Eq.trans ?_ hfree)
      simp only [Sched.eventList, (hwoke.kept u hnot).2]
      rfl
    rw [hdue u c hstage hlinked hd] at hp
    cases hp

/-- A section that steals leaves a task owed what is not there. -/
theorem noSteal_of_covered (h' : Covered P k') (heffect : KernelEffect k a k') : NoSteal P k a := by
  rintro ⟨t, c, q⟩ htransfer
  obtain ⟨_, _, _, _, hqueue, hpossible⟩ := Kernel.transferring_inv htransfer
  obtain ⟨item, q₁, y, σ₁, σ', hcopy, hreleased, hwake, hk'⟩ := heffect.of_transferring htransfer
  have hown := Call.available_own (t := t) hpossible hcopy
  by_cases howed : k.owed P c.xQueue c.isSend t = true
  · exact Or.inl howed
  · right
    -- every owed task is still owed afterwards
    have hsub : k.owedTasks P c.xQueue c.isSend ⊆ k'.owedTasks P c.xQueue c.isSend := by
      intro u hu
      obtain ⟨hlt, hu⟩ := Finset.mem_filter.mp hu
      obtain ⟨c', hstage, hx, hsend, hfree, hp⟩ := Kernel.owed_iff.mp hu
      have hne : u ≠ t := by
        rintro rfl
        exact howed hu
      have hkept := hreleased.frame.event u
      have hfree' : σ'.eventList u = none := by
        rw [hwake.eventList_of_ne, hkept, hfree]
        rw [hkept, hfree]
        simp
      have hnumber : k'.sched.uxCurrentNumberOfTasks = k.sched.uxCurrentNumberOfTasks := by
        obtain ⟨top, lists, rfl⟩ := hwake.frame
        rw [hk']
        exact hreleased.frame.number
      refine Finset.mem_filter.mpr ⟨?_, ?_⟩
      · rwa [hnumber]
      · rw [hk']
        exact Kernel.owed_iff.mpr ⟨c', by simp [hne, hstage], hx, hsend, hfree', hp⟩
    have hle := h' c.xQueue (c.settled t q₁) c.isSend (by simp [hk'])
    have hcard := Finset.card_le_card hsub
    simp only [Kernel.debt] at hle ⊢
    omega

/-! ### Failures -/

variable (P) in
/-- A call that is about to return failure is no longer entitled to wait. -/
def FailsLate (k : Kernel) : Prop :=
  ∀ t c item, k.stage t = .done c c.failure item → c.xTicksToWait ≠ 0 →
    P c (ticksSinceCall t k.log) = false

variable (P) in
/-- So were all that have returned failure. -/
def FailedLate (log : List Event) : Prop :=
  ∀ t c item l, .ret t c c.failure item :: l <:+ log → c.xTicksToWait ≠ 0 →
    P c (ticksSinceCall t l) = false

theorem FailedLate.cons {log : List Event} {e : Event} (h : FailedLate P log)
    (he : ∀ t c item, e = .ret t c c.failure item → c.xTicksToWait ≠ 0 →
      P c (ticksSinceCall t log) = false) : FailedLate P (e :: log) := by
  intro t c item l hl hwait
  rcases List.suffix_cons_iff.mp hl with heq | hl
  · cases heq
    exact he t c item rfl hwait
  · exact h t c item l hl hwait

/-- A task that looks again and finds nothing is not owed anything. -/
theorem late_of_refused (hinv : k.Inv) (h : Covered P k) {t : TaskId} {c : Call}
    (hcur : k.sched.pxCurrentTCB = some t) (hrun : k.yielding t = false)
    (hstage : k.stage t = .wait c) (hqueue : k.queue c.xQueue = some q)
    (hpossible : c.possible q = false) :
    P c (ticksSinceCall t k.log) = false := by
  by_contra hp
  have howed : k.owed P c.xQueue c.isSend t = true := Kernel.owed_iff.mpr
    ⟨c, hstage, rfl, rfl, hinv.free hcur hrun, by simpa using hp⟩
  have hdebt : 0 < k.debt P c.xQueue c.isSend :=
    Finset.card_pos.mpr ⟨t, hinv.mem_owedTasks.mpr howed⟩
  rw [Call.possible_iff.mpr (Nat.lt_of_lt_of_le hdebt (h _ q _ hqueue))] at hpossible
  cases hpossible

theorem failsLate_step (hinv : k.Inv) (hanti : ∀ c i, P c (i + 1) = true → P c i = true)
    (hcovered : Covered P k) (h : FailsLate P k) (heffect : KernelEffect k a k') :
    FailsLate P k' := by
  cases heffect with
  | quiet | opened | deleted => exact h
  | ticked =>
    intro u c item hstage hwait
    have hp := h u c item hstage hwait
    by_contra hlate
    rw [hanti _ _ (by simpa [ticksSinceCall] using hlate)] at hp
    cases hp
  | called =>
    intro u c item hstage hwait
    rcases Kernel.stage_of_update hstage with ⟨_, heq⟩ | ⟨hu, hstage⟩
    · cases heq
    · simpa [ticksSinceCall, Ne.symm hu] using h u c item hstage hwait
  | transferred =>
    intro u c item hstage hwait
    rcases Kernel.stage_of_update hstage with ⟨_, heq⟩ | ⟨_, hstage⟩
    · -- the call that has just succeeded
      simp only [Stage.done.injEq] at heq
      exact absurd heq.2.1.symm c.failure_ne_pdPass
    · exact h u c item hstage hwait
  | refused hcur hrun hstages hqueue hpossible =>
    intro u c item hstage hwait
    rcases Kernel.stage_of_update hstage with ⟨rfl, heq⟩ | ⟨_, hstage⟩
    · simp only [Stage.done.injEq] at heq
      obtain ⟨rfl, _⟩ := heq
      rcases hstages with ⟨_, hzero⟩ | hstages
      · exact absurd hzero hwait
      · exact late_of_refused hinv hcovered hcur hrun hstages hqueue hpossible
    · exact h u c item hstage hwait
  | declined | enlisted | returned =>
    intro u c item hstage hwait
    rcases Kernel.stage_of_update hstage with ⟨_, heq⟩ | ⟨_, hstage⟩
    · cases heq
    · exact h u c item hstage hwait

theorem failedLate_step (hlate : FailsLate P k) (h : FailedLate P k.log)
    (heffect : KernelEffect k a k') : FailedLate P k'.log := by
  cases heffect with
  | quiet | refused | declined | enlisted => exact h
  | opened => exact h.cons fun _ _ _ he => by cases he
  | deleted => exact h.cons fun _ _ _ he => by cases he
  | called => exact h.cons fun _ _ _ he => by cases he
  | transferred => exact h.cons fun _ _ _ he => by cases he
  | ticked => exact h.cons fun _ _ _ he => by cases he
  | returned _ _ hstage =>
    refine h.cons fun t c item he hwait => ?_
    cases he
    exact hlate _ _ _ hstage hwait

section

variable {R : Kernel → Action → Prop}
  (hR : ∀ k a, R k a → NoSteal P k a)
  (hfits : ∀ k t c q, (kernel.restrict R).Reach k → k.stage t = .wait c → c.isSend = true →
    P c (ticksSinceCall t k.log) = true → k.queue c.xQueue = some q →
      q.uxMessagesWaiting ≤ q.uxLength)
  (hanti : ∀ c i, P c (i + 1) = true → P c i = true)
  (hdue : ∀ k t c, (kernel.restrict R).Reach k → k.stage t = .wait c →
    k.sched.eventList t ≠ none → (k.sched.setTickCount (k.sched.xTickCount + 1)).Due t →
      P c (ticksSinceCall t k.log + 1) = false)

include hR hfits hanti hdue

/-- **No failure before its time**, along the runs in which no section steals. -/
theorem failedLate_of_reach {k : Kernel} (h : (kernel.restrict R).Reach k) :
    Covered P k ∧ FailsLate P k ∧ FailedLate P k.log := by
  refine kernel_invariant
    (P := fun k => Covered P k ∧ FailsLate P k ∧ FailedLate P k.log) ?_ ?_ h
  · refine ⟨?_, ?_, ?_⟩
    · intro x q send hq
      cases hq
    · intro t c item hstage
      cases hstage
    · intro t c item l hl
      simp [Kernel.boot] at hl
  · rintro k a k' hreach ⟨hcovered, hfails, hfailed⟩ hr heffect
    have hinv := kernel_inv hreach.of_restrict
    refine ⟨?_, failsLate_step hinv hanti hcovered hfails heffect,
      failedLate_step hfails hfailed heffect⟩
    refine covered_step hinv ?_ hanti ?_ hcovered (hR k a hr) heffect
    · exact fun t c q => hfits k t c q hreach
    · exact fun t c => hdue k t c hreach

/-- A section keeps the debt covered exactly when it does not steal. -/
theorem covered_iff_noSteal {k k' : Kernel} (h : (kernel.restrict R).Reach k)
    (hstep : kernel.Step k .resume k') : Covered P k' ↔ NoSteal P k .resume := by
  have heffect := kernel_effect h.of_restrict hstep
  constructor
  · intro hcovered
    exact noSteal_of_covered hcovered heffect
  · intro hsteal
    have hcovered := (failedLate_of_reach hR hfits hanti hdue h).1
    exact covered_step (kernel_inv h.of_restrict) (fun t c q => hfits k t c q h) hanti
      (fun t c => hdue k t c h) hcovered hsteal heffect

end

end

end FlintRTOS
