import FlintRTOS.Mutex
import FlintRTOS.QueueRefinement
import FlintRTOS.QueueTimeout

/-!
# The lwIP operating system layer

`sys_arch.c` maps lwIP's mutexes and mailboxes onto the kernel's queues.  Its
locks and posts wait without a time limit, and ignore the result.  They are right
only if the kernel never fails such a call: otherwise `sys_mutex_lock` returns
without the mutex and `sys_mbox_post` returns without having posted.  As
`QueueTimeout` shows the kernel does fail it when another task steals what the
caller was woken for.

`LwipRun` is the step condition: the objects are used through the layer, and no
section steals from a task that waits in a lock or a post.  Along the runs that
meet it the locks exclude each other and no message is lost.
-/

namespace FlintRTOS

open ListId ItemId

/-! ### The layer -/

/-- `sizeof(void *)`. -/
def sizeofPointer : Nat := 8

def sysMutexNew (pxQueue : Option Nat) : Action := .xQueueCreateMutex pxQueue

def sysMutexLock (mtx : QueueId) : Call := xSemaphoreTake mtx portMaxDelay

def sysMutexUnlock (mtx : QueueId) : Call := xSemaphoreGive mtx

def sysMboxNew (pxQueue : Option Nat) (size : Nat) : Action :=
  .xQueueCreate pxQueue size sizeofPointer

def sysMboxPost (mbox : QueueId) (msg : Item) : Call :=
  xQueueSendToBack mbox (some msg) portMaxDelay

def sysMboxTrypost (mbox : QueueId) (msg : Item) : Call := xQueueSendToBack mbox (some msg) 0

def sysArchMboxFetch (mbox : QueueId) (timeoutMs : TickType) : Call :=
  .xQueueReceive mbox true (if timeoutMs = 0 then portMaxDelay else timeoutMs)

def sysArchMboxTryfetch (mbox : QueueId) : Call := .xQueueReceive mbox true 0

/-- The calls of the mailbox functions. -/
inductive MailboxCall (mbox : QueueId) : Call → Prop where
  | post (msg : Item) : MailboxCall mbox (sysMboxPost mbox msg)
  | trypost (msg : Item) : MailboxCall mbox (sysMboxTrypost mbox msg)
  | fetch (timeoutMs : TickType) : MailboxCall mbox (sysArchMboxFetch mbox timeoutMs)
  | tryfetch : MailboxCall mbox (sysArchMboxTryfetch mbox)

def Call.isMailbox (mbox : QueueId) : Call → Bool
  | .prvSend x pvItem n xToFront => decide (x = mbox) && pvItem.isSome && !xToFront &&
      (decide (n = portMaxDelay) || decide (n = 0))
  | .xQueueReceive x pvBuffer _ => decide (x = mbox) && pvBuffer

variable {mbox x : QueueId} {a : Action} {q : Queue} {item : Item} {log : List Event}

theorem Call.isMailbox_iff {c : Call} : c.isMailbox mbox = true ↔ MailboxCall mbox c := by
  constructor
  · intro h
    cases c with
    | prvSend x pvItem n xToFront =>
      simp only [isMailbox, Bool.and_eq_true, Bool.or_eq_true, decide_eq_true_eq,
        Bool.not_eq_true'] at h
      obtain ⟨⟨⟨rfl, hsome⟩, rfl⟩, hn⟩ := h
      obtain ⟨msg, rfl⟩ := Option.isSome_iff_exists.mp hsome
      rcases hn with rfl | rfl
      · exact .post msg
      · exact .trypost msg
    | xQueueReceive x pvBuffer n =>
      simp only [isMailbox, Bool.and_eq_true, decide_eq_true_eq] at h
      obtain ⟨rfl, rfl⟩ := h
      by_cases hn : n = 0
      · subst hn
        exact .tryfetch
      · have hfetch : MailboxCall x (sysArchMboxFetch x n) := .fetch n
        rwa [sysArchMboxFetch, if_neg hn] at hfetch
  · intro h
    cases h with
    | post | trypost => simp [sysMboxPost, sysMboxTrypost, xQueueSendToBack, isMailbox]
    | fetch | tryfetch => simp [sysArchMboxFetch, sysArchMboxTryfetch, isMailbox]

instance (mbox : QueueId) (c : Call) : Decidable (MailboxCall mbox c) :=
  decidable_of_iff _ Call.isMailbox_iff

theorem MailboxCall.nonNull {c : Call} (h : MailboxCall mbox c) (q : Queue) :
    c.nonNull q = true := by
  cases h with
  | post | trypost => exact Bool.or_true _
  | fetch | tryfetch => exact Bool.or_true _

theorem MailboxCall.apply_send {c : Call} (h : MailboxCall mbox c) (hsend : c.isSend = true)
    (item : Item) (xs : List Item) : c.apply item xs = some (xs ++ [item]) := by
  cases h with
  | post | trypost => rfl
  | fetch | tryfetch => cases hsend

/-- The queues `sys_mbox_new` makes. -/
def Queue.isMailbox (q : Queue) : Bool := !q.ucIsMutex && decide (q.uxItemSize = sizeofPointer)

/-- `t` has returned from `sys_mutex_lock`, whatever came of it, and has not called
    `sys_mutex_unlock` since. -/
def inside (t : TaskId) (x : QueueId) : List Event → Bool
  | [] => false
  | .ret u c _ _ :: log => if u = t ∧ c = sysMutexLock x then true else inside t x log
  | .call u c :: log => if u = t ∧ c = sysMutexUnlock x then false else inside t x log
  | .create y _ :: log => if y = x then false else inside t x log
  | .transfer .. :: log | .tick :: log | .delete _ :: log => inside t x log

/-- Mutexes and mailboxes are made and used through the layer, and each thread
    unlocks only what it locked.  The size of a mailbox is an `int`. -/
def LwipUse (k : Kernel) : Action → Prop
  | .xQueueCreate _ length size => size = sizeofPointer → length < 2 ^ 31
  | .call c => ∀ q ∈ k.queue c.xQueue,
      (q.ucIsMutex = true → c = sysMutexLock c.xQueue ∨ c = sysMutexUnlock c.xQueue ∧
        ∀ t ∈ k.sched.pxCurrentTCB, inside t c.xQueue k.log = true) ∧
      (q.isMailbox = true → MailboxCall c.xQueue c)
  | _ => True

instance (k : Kernel) : ∀ a, Decidable (LwipUse k a)
  | .call c => inferInstanceAs (Decidable (∀ q ∈ k.queue c.xQueue, _))
  | .xQueueCreate _ _ size => inferInstanceAs (Decidable (size = sizeofPointer → _))
  | .xTaskCreate .. | .vTaskStartScheduler _ | .vTaskSetMutexInheritance _
  | .xQueueCreateCounting .. | .xQueueCreateMutex _ | .vQueueDelete _ | .vTaskDelay _
  | .taskYIELD | .resume | .tick => inferInstanceAs (Decidable True)

/-- The calls whose failure the layer does not see: locks, and posts of a pointer. -/
def unseen (c : Call) (_ : Nat) : Bool :=
  decide (c = sysMutexLock c.xQueue) ||
    match c with
    | .prvSend x (some msg) _ _ => decide (c = sysMboxPost x msg ∧ msg.length = sizeofPointer)
    | _ => false

/-- The step condition. -/
structure LwipRun (k : Kernel) (a : Action) : Prop where
  use : LwipUse k a
  noSteal : NoSteal unseen k a

instance (k : Kernel) (a : Action) : Decidable (LwipRun k a) :=
  decidable_of_iff (LwipUse k a ∧ NoSteal unseen k a) ⟨fun h => ⟨h.1, h.2⟩, fun h => ⟨h.1, h.2⟩⟩

/-! ### Locks and posts do not fail -/

theorem unlimited_of_unseen {c : Call} {i : Nat} (h : unseen c i = true) :
    c.xTicksToWait = portMaxDelay := by
  rcases Bool.or_eq_true_iff.mp h with hlock | hpost
  · rw [of_decide_eq_true hlock]
    rfl
  · cases c with
    | prvSend x pvItem n xToFront =>
      cases pvItem with
      | none => cases hpost
      | some msg =>
        rw [(of_decide_eq_true hpost).1]
        rfl
    | xQueueReceive => cases hpost

theorem newQueue_count_le {contents : List Item} (h : a.newQueue = some (q, contents))
    (hsize : q.uxItemSize ≠ 0) : q.uxMessagesWaiting ≤ q.uxLength := by
  unfold Action.newQueue at h
  split at h
  · obtain ⟨_, heq⟩ := Option.ite_none_left_eq_some.mp h
    cases heq
    exact Nat.zero_le _
  · obtain ⟨_, heq⟩ := Option.ite_none_left_eq_some.mp h
    cases heq
    exact absurd rfl hsize
  · cases h
    exact absurd rfl hsize
  · cases h

/-- A queue with storage is within its length: only a semaphore can be made with a
    count above it. -/
theorem count_le_of_itemSize {k : Kernel} (h : kernel.Reach k) (hq : k.queue x = some q) :
    q.uxItemSize ≠ 0 → q.uxMessagesWaiting ≤ q.uxLength := by
  refine queue_invariant (P := fun _ q _ => q.uxItemSize ≠ 0 →
    q.uxMessagesWaiting ≤ q.uxLength) ?_ ?_ ?_ h.restrict_true x q hq
  · intro k a q contents _ hnew hsize
    exact newQueue_count_le hnew hsize
  · intro k t c q q₁ item _ _ _ hpossible hcopy ih hsize
    rw [Call.settled_uxItemSize, (Call.copy_fields hcopy).2.1] at hsize
    exact Call.count_le hpossible hcopy (ih hsize)
  · exact fun _ _ _ _ _ ih => ih

/-- A message in a call in progress has the item size of its queue. -/
theorem length_of_send {k : Kernel} (h : kernel.Reach k) {t : TaskId} {c : Call}
    (hc : (k.stage t).call = some c) (hq : k.queue c.xQueue = some q) :
    ∀ x msg n xToFront, c = .prvSend x (some msg) n xToFront → msg.length = q.uxItemSize := by
  refine call_invariant (U := fun c q => ∀ x msg n xToFront,
    c = .prvSend x (some msg) n xToFront → msg.length = q.uxItemSize) ?_ ?_ h.restrict_true t c q
    hc hq
  · rintro k c q _ hvalid hq x msg n xToFront rfl
    simpa [Kernel.validCall, hq] using hvalid
  · intro c c' t q q₁ item _ hcopy ih
    rw [Call.settled_uxItemSize, (Call.copy_fields hcopy).2.1]
    exact ih

theorem fits_of_unseen {k : Kernel} {t : TaskId} {c : Call} {i : Nat} (h : kernel.Reach k)
    (hstage : k.stage t = .wait c) (hsend : c.isSend = true) (hunseen : unseen c i = true)
    (hq : k.queue c.xQueue = some q) : q.uxMessagesWaiting ≤ q.uxLength := by
  cases c with
  | xQueueReceive => cases hsend
  | prvSend x pvItem n xToFront =>
    cases pvItem with
    | none => simp [unseen, sysMutexLock, xSemaphoreTake] at hunseen
    | some msg =>
      have hpost : msg.length = sizeofPointer := by
        rcases Bool.or_eq_true_iff.mp hunseen with hlock | hpost
        · exact absurd (of_decide_eq_true hlock) (by simp [sysMutexLock, xSemaphoreTake])
        · exact (of_decide_eq_true hpost).2
      have hsize := length_of_send h (by rw [hstage]; rfl) hq x msg n xToFront rfl
      refine count_le_of_itemSize h hq ?_
      rw [← hsize, hpost]
      decide

theorem not_unseen_of_due {k : Kernel} {t : TaskId} {c : Call}
    (h : (kernel.restrict LwipRun).Reach k) (hstage : k.stage t = .wait c)
    (hlinked : k.sched.eventList t ≠ none)
    (hdue : (k.sched.setTickCount (k.sched.xTickCount + 1)).Due t) :
    unseen c (ticksSinceCall t k.log + 1) = false := by
  by_contra hunseen
  have hmax := unlimited_of_unseen (Bool.of_not_eq_false hunseen)
  have hsuspended := suspended_of_linked h.of_restrict hstage hlinked hmax
  cases hsuspended.symm.trans hdue.1

theorem lwip_failedLate {k : Kernel} (h : (kernel.restrict LwipRun).Reach k) :
    FailsLate unseen k ∧ FailedLate unseen k.log :=
  (failedLate_of_reach (P := unseen) (fun _ _ => LwipRun.noSteal)
    (fun _ _ _ _ hreach => fits_of_unseen hreach.of_restrict) (fun _ _ hp => hp)
    (fun _ _ _ => not_unseen_of_due) h).2

/-- The calls in progress are calls of the layer, with usable pointers. -/
theorem lwip_calls {k : Kernel} (h : (kernel.restrict LwipRun).Reach k) :
    ∀ t c q, (k.stage t).call = some c → k.queue c.xQueue = some q →
      (q.ucIsMutex = true → c = sysMutexLock c.xQueue ∨ c = sysMutexUnlock c.xQueue) ∧
        (q.isMailbox = true → MailboxCall c.xQueue c ∧ c.Usable q) := by
  refine call_invariant (U := fun c q =>
    (q.ucIsMutex = true → c = sysMutexLock c.xQueue ∨ c = sysMutexUnlock c.xQueue) ∧
      (q.isMailbox = true → MailboxCall c.xQueue c ∧ c.Usable q)) ?_ ?_ h
  · intro k c q hr hvalid hq
    obtain ⟨hmutex, hmailbox⟩ := hr.use q hq
    refine ⟨fun h => (hmutex h).imp_right And.left, fun h => ⟨hmailbox h, ?_⟩⟩
    exact Call.usable_of_valid hq hvalid ((hmailbox h).nonNull q)
  · rintro c c' t q q₁ item _ hcopy ⟨hlock, hmailbox⟩
    obtain ⟨_, hsize, hmutex, _⟩ := Call.copy_fields hcopy
    rw [← Call.settled_uxItemSize c' t] at hsize
    rw [← Call.settled_ucIsMutex c' t] at hmutex
    refine ⟨hmutex ▸ hlock, fun h => ?_⟩
    obtain ⟨hcall, husable⟩ := hmailbox (by simpa only [Queue.isMailbox, hsize, hmutex] using h)
    exact ⟨hcall, husable.congr hsize⟩

/-! ### Mutual exclusion -/

/-- A task that is inside has the mutex, and so has one that is about to return
    from a lock with success; a task in its unlock is outside. -/
structure LockInv (k : Kernel) : Prop where
  inside : ∀ t x q, k.queue x = some q → q.ucIsMutex = true → inside t x k.log = true →
    holding t x k.log = true
  locked : ∀ t x q item, k.queue x = some q → q.ucIsMutex = true →
    k.stage t = .done (sysMutexLock x) pdPass item → holding t x k.log = true
  unlocking : ∀ t x, (k.stage t).call = some (sysMutexUnlock x) →
    FlintRTOS.inside t x k.log = false

/-- A section that leaves the log alone and the caller in the same call, or
    outside. -/
theorem LockInv.restage {k : Kernel} (h : LockInv k) {t : TaskId} {stage : Stage}
    (hcall : ∀ c, stage.call = some c → (k.stage t).call = some c)
    (hended : ∀ c item, stage ≠ .done c pdPass item) : LockInv (k.setStage t stage) := by
  refine ⟨h.inside, ?_, ?_⟩
  · intro u x q item hq hmutex hstage
    rcases Kernel.stage_of_update hstage with ⟨_, heq⟩ | ⟨_, hstage⟩
    · exact absurd heq (hended (sysMutexLock x) item)
    · exact h.locked u x q item hq hmutex hstage
  · intro u x hc
    exact h.unlocking u x (Kernel.call_of_update hcall hc)

theorem pdPass_of_unseen {k : Kernel} (h : (kernel.restrict LwipRun).Reach k) {t : TaskId}
    {c : Call} {r : BaseType} (hstage : k.stage t = .done c r item)
    (hunseen : ∀ i, unseen c i = true) : r = pdPass := by
  have hended := (session_of_reach h.of_restrict t).2
  rw [hstage] at hended
  rcases hended with hpass | ⟨hfailure, _⟩
  · exact hpass
  · have hwait : c.xTicksToWait ≠ 0 := by
      rw [unlimited_of_unseen (hunseen 0)]
      decide
    have hlate := (lwip_failedLate h).1 t c item (hfailure ▸ hstage) hwait
    rw [hunseen] at hlate
    cases hlate

section LockInv

variable {k : Kernel} {t : TaskId} {c : Call}

/-- A new queue is not one that a call in progress is on. -/
theorem LockInv.addQueue (h : LockInv k) (hinv : k.Inv) (σ : Sched) (q₀ : Queue)
    (contents : List Item) : LockInv ((k.setSched σ).addQueue q₀ contents) := by
  have hfresh : ∀ {u c}, (k.stage u).call = some c → k.uxQueues ≠ c.xQueue :=
    fun hc heq => hinv.xQueue_ne_fresh hc heq.symm
  refine ⟨?_, ?_, ?_⟩
  · intro u x q hq hmutex hin
    rcases Kernel.queue_of_update hq with ⟨hx, _⟩ | ⟨hx, hq⟩
    · simp [FlintRTOS.inside, hx] at hin
    · have hx : k.uxQueues ≠ x := Ne.symm hx
      have hin : FlintRTOS.inside u x k.log = true := by
        simpa [FlintRTOS.inside, hx] using hin
      simpa [holding, hx] using h.inside u x q hq hmutex hin
  · intro u x q item hq hmutex hstage
    rcases Kernel.queue_of_update hq with ⟨hx, _⟩ | ⟨hx, hq⟩
    · have hstage : k.stage u = .done (sysMutexLock x) pdPass item := hstage
      exact absurd hx.symm (hfresh (u := u) (c := sysMutexLock x) (by rw [hstage]; rfl))
    · have hx : k.uxQueues ≠ x := Ne.symm hx
      simpa [holding, hx] using h.locked u x q item hq hmutex hstage
  · intro u x hc
    have hx : k.uxQueues ≠ x := hfresh (c := sysMutexUnlock x) (u := u) hc
    simpa [FlintRTOS.inside, hx] using h.unlocking u x hc

/-- A task that calls unlock is outside from then on. -/
theorem LockInv.call (h : LockInv k) :
    LockInv ((k.setStage t (.enter c)).record (.call t c)) := by
  refine ⟨?_, ?_, ?_⟩
  · intro u x q hq hmutex hin
    refine h.inside u x q hq hmutex ?_
    by_cases hc : t = u ∧ c = sysMutexUnlock x
    · simp [FlintRTOS.inside, hc] at hin
    · simpa [FlintRTOS.inside, hc] using hin
  · intro u x q item hq hmutex hstage
    rcases Kernel.stage_of_update hstage with ⟨_, heq⟩ | ⟨_, hstage⟩
    · cases heq
    · exact h.locked u x q item hq hmutex hstage
  · intro u x hc
    by_cases hu : t = u
    · subst hu
      have hc : c = sysMutexUnlock x := by simpa [Stage.call] using hc
      simp [FlintRTOS.inside, hc]
    · simpa [FlintRTOS.inside, hu] using h.unlocking u x (by simpa [Ne.symm hu] using hc)

/-- A task that takes the mutex has it, and one that gives it is outside. -/
theorem LockInv.transfer (h : LockInv k) {q q₁ : Queue} {item : Item} {y : Bool} {σ' : Sched}
    (hcall : (k.stage t).call = some c) (hqueue : k.queue c.xQueue = some q)
    (hcopy : c.copy q = some (item, q₁))
    (hlayer : ∀ q, k.queue c.xQueue = some q → q.ucIsMutex = true →
      c = sysMutexLock c.xQueue ∨ c = sysMutexUnlock c.xQueue) :
    LockInv (((((k.setSched σ').setQueue c.xQueue (some (c.settled t q₁))).setYielding t
      y).setStage t (.done c pdPass item)).record (.transfer t c item)) := by
  refine ⟨?_, ?_, ?_⟩
  · intro u x q' hq' hmutex hin
    obtain ⟨q', hq', hsame⟩ := Kernel.queue_of_transfer hqueue hcopy hq'
    have hmutex := hsame.trans hmutex
    have hin : FlintRTOS.inside u x k.log = true := hin
    by_cases hux : t = u ∧ c.xQueue = x
    · obtain ⟨rfl, rfl⟩ := hux
      rcases hlayer q' hq' hmutex with hlock | hunlock
      · rw [hlock]
        simp [holding, sysMutexLock, xSemaphoreTake, Call.xQueue, Call.isSend]
      · rw [h.unlocking t c.xQueue (by rw [hcall, ← hunlock])] at hin
        cases hin
    · simpa [holding, hux] using h.inside u x q' hq' hmutex hin
  · intro u x q' item' hq' hmutex hstage
    obtain ⟨q', hq', hsame⟩ := Kernel.queue_of_transfer hqueue hcopy hq'
    rcases Kernel.stage_of_update hstage with ⟨rfl, heq⟩ | ⟨hu, hstage⟩
    · simp only [Stage.done.injEq] at heq
      simp [holding, heq.1, sysMutexLock, xSemaphoreTake, Call.xQueue, Call.isSend]
    · simpa [holding, Ne.symm hu] using
        h.locked u x q' item' hq' (hsame.trans hmutex) hstage
  · intro u x hc
    refine h.unlocking u x (Kernel.call_of_update ?_ hc)
    intro c' hc'
    rw [hcall]
    exact hc'

theorem LockInv.ret (h : LockInv k) {r : BaseType} {item : Item}
    (hstage : k.stage t = .done c r item) (hpass : ∀ x, c = sysMutexLock x → r = pdPass) :
    LockInv ((k.setStage t .app).record (.ret t c r item)) := by
  refine ⟨?_, ?_, ?_⟩
  · intro u x q hq hmutex hin
    by_cases hux : t = u ∧ c = sysMutexLock x
    · obtain ⟨rfl, rfl⟩ := hux
      cases hpass x rfl
      exact h.locked t x q item hq hmutex hstage
    · exact h.inside u x q hq hmutex (by simpa [FlintRTOS.inside, hux] using hin)
  · intro u x q item' hq hmutex hstage'
    rcases Kernel.stage_of_update hstage' with ⟨_, heq⟩ | ⟨_, hstage'⟩
    · cases heq
    · exact h.locked u x q item' hq hmutex hstage'
  · intro u x hc
    have hu : t ≠ u := by
      rintro rfl
      simp [Stage.call] at hc
    simpa [FlintRTOS.inside, hu] using h.unlocking u x (by simpa [Ne.symm hu] using hc)

end LockInv

theorem lockInv_step {k k' : Kernel} (hreach : (kernel.restrict LwipRun).Reach k) (h : LockInv k)
    (heffect : KernelEffect k a k') : LockInv k' := by
  cases heffect with
  | quiet | ticked => exact ⟨h.inside, h.locked, h.unlocking⟩
  | opened => exact h.addQueue (kernel_inv hreach.of_restrict) _ _ _
  | deleted =>
    exact ⟨fun t x q hq => h.inside t x q (Kernel.queue_of_delete hq).2,
      fun t x q item hq => h.locked t x q item (Kernel.queue_of_delete hq).2, h.unlocking⟩
  | called => exact h.call
  | transferred _ _ hstage hqueue _ hcopy =>
    have hcall := Kernel.call_of_look hstage
    exact h.transfer hcall hqueue hcopy fun q hq => (lwip_calls hreach _ _ q hcall hq).1
  | @refused t c _ _ _ hstage =>
    refine h.restage ?_ ?_
    · intro c' hc'
      rw [Kernel.call_of_look (hstage.imp_left And.left)]
      exact hc'
    · intro c' item' heq
      simp only [Stage.done.injEq] at heq
      exact c.failure_ne_pdPass heq.2.1
  | declined _ _ hstage =>
    refine h.restage ?_ (by simp)
    intro c' hc'
    rw [hstage]
    exact hc'
  | @enlisted t c q σ₁ σ' _ _ hstage =>
    have hkept : LockInv (k.setStage t (.wait c)) := by
      refine h.restage ?_ (by simp)
      intro c' hc'
      rw [hstage]
      exact hc'
    exact ⟨hkept.inside, hkept.locked, hkept.unlocking⟩
  | returned _ _ hstage =>
    refine h.ret hstage ?_
    rintro x rfl
    refine pdPass_of_unseen hreach hstage fun _ => ?_
    simp [unseen, sysMutexLock, xSemaphoreTake, Call.xQueue]

theorem LockInv.givesOwn {k : Kernel} (h : LockInv k) (huse : LwipUse k a) : GivesOwn k a := by
  cases a with
  | call c =>
    simp only [GivesOwn, Kernel.givesOwn, Bool.or_eq_true, Bool.not_eq_true', Option.all_eq_true]
    by_cases hsend : c.isSend = false
    · exact Or.inl hsend
    · right
      intro q hq
      by_cases hmutex : q.ucIsMutex = false
      · exact Or.inl hmutex
      · right
        have hmutex : q.ucIsMutex = true := by simpa using hmutex
        intro t hcur
        rcases (huse q hq).1 hmutex with hlock | ⟨_, hin⟩
        · rw [hlock] at hsend
          exact absurd rfl hsend
        · exact h.inside t c.xQueue q hq hmutex (hin t hcur)
  | _ => rfl

/-- A run of the layer is one in which mutexes are given by tasks that have them. -/
theorem givesOwn_of_lwip {k : Kernel} (h : (kernel.restrict LwipRun).Reach k) :
    (kernel.restrict GivesOwn).Reach k ∧ LockInv k := by
  refine h.invariant (P := fun k => (kernel.restrict GivesOwn).Reach k ∧ LockInv k) ?_ ?_
  · refine ⟨.init, ?_, ?_, ?_⟩
    · intro t x q hq
      cases hq
    · intro t x q item hq
      cases hq
    · intro t x hc
      cases hc
  · rintro k a k' hreach ⟨hown, hlock⟩ hst
    obtain ⟨hst, hrun⟩ := Machine.restrict_step.mp hst
    have heffect := kernel_effect hreach.of_restrict hst
    exact ⟨hown.step (Machine.restrict_step.mpr ⟨hst, hlock.givesOwn hrun.use⟩),
      lockInv_step hreach hlock heffect⟩

/-! ### Mailboxes -/

/-- The messages that sends have put into `x`, in order. -/
def posted (x : QueueId) : List Event → List Item
  | [] => []
  | .transfer _ c item :: log =>
      if c.xQueue = x ∧ c.isSend = true then posted x log ++ [item] else posted x log
  | .create y _ :: log => if y = x then [] else posted x log
  | .call .. :: log | .ret .. :: log | .tick :: log | .delete _ :: log => posted x log

/-- The messages that receives have taken out of `x`, in order. -/
def fetched (x : QueueId) : List Event → List Item
  | [] => []
  | .transfer _ c item :: log =>
      if c.xQueue = x ∧ c.isSend = false then fetched x log ++ [item] else fetched x log
  | .create y _ :: log => if y = x then [] else fetched x log
  | .call .. :: log | .ret .. :: log | .tick :: log | .delete _ :: log => fetched x log

theorem posted_cons_of_ne {e : Event} (h : e.queue ≠ some x) :
    posted x (e :: log) = posted x log := by
  cases e with
  | transfer t c item => exact if_neg fun heq => h (by rw [← heq.1]; rfl)
  | create y contents => exact if_neg fun heq => h (by rw [← heq]; rfl)
  | call | ret | tick | delete => rfl

theorem fetched_cons_of_ne {e : Event} (h : e.queue ≠ some x) :
    fetched x (e :: log) = fetched x log := by
  cases e with
  | transfer t c item => exact if_neg fun heq => h (by rw [← heq.1]; rfl)
  | create y contents => exact if_neg fun heq => h (by rw [← heq]; rfl)
  | call | ret | tick | delete => rfl

/-- A mailbox is made within the bounds of the storage, and empty. -/
theorem LwipUse.newQueue {k : Kernel} {contents : List Item} (huse : LwipUse k a)
    (hnew : a.newQueue = some (q, contents)) (hmailbox : q.isMailbox = true) :
    WellUsed k a ∧ contents = [] := by
  cases a with
  | xQueueCreate pxQueue length size =>
    cases pxQueue with
    | none => cases hnew
    | some p =>
      obtain ⟨_, heq⟩ := Option.ite_none_left_eq_some.mp hnew
      cases heq
      have hsize : size = sizeofPointer := by simpa [Queue.isMailbox] using hmailbox
      have hlength : length < 2 ^ 31 := huse hsize
      subst hsize
      have hfits : length < 2 ^ 64 := by omega
      have hstorage : length * sizeofPointer < 2 ^ 64 := by
        rw [sizeofPointer]
        omega
      exact ⟨Bool.and_eq_true_iff.mpr ⟨decide_eq_true hfits, decide_eq_true hstorage⟩, rfl⟩
  | xQueueCreateCounting pxQueue max init =>
    cases pxQueue with
    | none => cases hnew
    | some p =>
      obtain ⟨_, heq⟩ := Option.ite_none_left_eq_some.mp hnew
      cases heq
      cases hmailbox
  | xQueueCreateMutex pxQueue =>
    cases pxQueue with
    | none => cases hnew
    | some p =>
      cases hnew
      cases hmailbox
  | _ => cases hnew

/-- What was posted is what was fetched and then what is still there. -/
theorem posted_eq {k : Kernel} (h : (kernel.restrict LwipRun).Reach k) :
    ∀ x q, k.queue x = some q → q.isMailbox = true →
      ∃ b, q.Represents b ∧ posted x k.log = fetched x k.log ++ b.contents := by
  refine queue_invariant (P := fun x q log => q.isMailbox = true →
    ∃ b, q.Represents b ∧ posted x log = fetched x log ++ b.contents) ?_ ?_ ?_ h
  · intro k a q contents hr hnew hmailbox
    obtain ⟨hused, hempty⟩ := hr.use.newQueue hnew hmailbox
    obtain ⟨_, b, hrep, hcontents⟩ := newQueue_represents hused hnew
    refine ⟨b, hrep, ?_⟩
    simp [posted, fetched, hcontents, hempty]
  · intro k t c q q₁ item hreach hstage hqueue hpossible hcopy ih hmailbox
    obtain ⟨_, hsize, hmutex, _⟩ := Call.copy_fields hcopy
    have hmailbox : q.isMailbox = true := by
      simpa only [Queue.isMailbox, Call.settled_ucIsMutex, Call.settled_uxItemSize, hsize,
        hmutex] using hmailbox
    obtain ⟨b, hrep, hposted⟩ := ih hmailbox
    obtain ⟨hcall, husable⟩ :=
      (lwip_calls hreach t c q (Kernel.call_of_look hstage) hqueue).2 hmailbox
    obtain ⟨item', q₁', b', hcopy', hrep', happly⟩ := Call.copy_represents hrep husable hpossible
    cases hcopy.symm.trans hcopy'
    refine ⟨b', hrep'.settled c t, ?_⟩
    cases hsend : c.isSend with
    | true =>
      -- posts go to the back
      have hback := Option.some.inj ((hcall.apply_send hsend item b.contents).symm.trans happly)
      simp [posted, fetched, hsend, hposted, ← hback]
    | false =>
      have hfront : b.contents = item :: b'.contents := Call.apply_receive hsend happly
      simp [posted, fetched, hsend, hposted, hfront]
  · intro x q e log hother ih hmailbox
    rw [posted_cons_of_ne hother, fetched_cons_of_ne hother]
    exact ih hmailbox

theorem transfer_of_carried {t : TaskId} {c : Call} (h : session t log = some (.carried c item)) :
    .transfer t c item ∈ log := by
  induction log with
  | nil => cases h
  | cons e log ih =>
    refine List.mem_cons.mpr ?_
    cases e with
    | tick | create | delete => exact Or.inr (ih h)
    | call u c' =>
      by_cases hu : u = t
      · simp [session, hu] at h
      · exact Or.inr (ih (by simpa [session, hu] using h))
    | transfer u c' item' =>
      by_cases hu : u = t
      · left
        subst hu
        simp only [session, if_true] at h
        obtain ⟨_, heq⟩ := Option.ite_none_right_eq_some.mp h
        cases heq
        rfl
      · exact Or.inr (ih (by simpa [session, hu] using h))
    | ret u c' r item' =>
      by_cases hu : u = t
      · subst hu
        simp only [session, if_true] at h
        split at h
        · obtain ⟨_, heq⟩ := Option.ite_none_right_eq_some.mp h
          cases heq
        · obtain ⟨_, heq⟩ := Option.ite_none_right_eq_some.mp h
          cases heq
      · exact Or.inr (ih (by simpa [session, hu] using h))

/-! ### Every run -/

theorem lwip_exclusion {k : Kernel} (h : (kernel.restrict LwipRun).Reach k)
    (hq : k.queue x = some q) (hmutex : q.ucIsMutex = true) {t u : TaskId}
    (ht : inside t x k.log = true) (hu : inside u x k.log = true) : t = u := by
  obtain ⟨hown, hlock⟩ := givesOwn_of_lwip h
  have hholder := holder_of_holding hown x q hq hmutex
  have htake := hholder t (hlock.inside t x q hq hmutex ht)
  have hutake := hholder u (hlock.inside u x q hq hmutex hu)
  exact Option.some.inj (htake.symm.trans hutake)

theorem lwip_fifo {k : Kernel} (h : (kernel.restrict LwipRun).Reach k) (hq : k.queue x = some q)
    (hmailbox : q.isMailbox = true) : posted x k.log = fetched x k.log ++ q.contents := by
  obtain ⟨b, hrep, hposted⟩ := posted_eq h x q hq hmailbox
  rw [hposted, hrep.contents]

theorem lwip_post {k : Kernel} (h : (kernel.restrict LwipRun).Reach k) {t : TaskId} {msg : Item}
    (hmsg : msg.length = sizeofPointer) {r : BaseType} {l : List Event}
    (hl : .ret t (sysMboxPost x msg) r item :: l <:+ k.log) :
    r = pdPass ∧ session t l = some (.carried (sysMboxPost x msg) msg) := by
  rcases session_of_ret h.of_restrict hl with ⟨hpass, hcarried⟩ | ⟨hfailure, _⟩
  · refine ⟨hpass, ?_⟩
    have hmem : .transfer t (sysMboxPost x msg) item ∈ k.log :=
      hl.subset (List.mem_cons_of_mem _ (transfer_of_carried hcarried))
    have hitem : item = msg := transfer_item h.of_restrict hmem
    rwa [hitem] at hcarried
  · subst hfailure
    have hunseen : unseen (sysMboxPost x msg) (ticksSinceCall t l) = true := by
      simp [unseen, sysMboxPost, xQueueSendToBack, hmsg]
    have hwait : (sysMboxPost x msg).xTicksToWait ≠ 0 := by
      rw [unlimited_of_unseen hunseen]
      decide
    rw [(lwip_failedLate h).2 t (sysMboxPost x msg) item l hl hwait] at hunseen
    cases hunseen

/-- **The contract of the layer, along the runs in which no section steals from a
    task that waits in a lock or a post.**  At most one thread is inside a mutex.
    Every returned post has put its message into the mailbox, every successful
    fetch hands out the message it took out, and what was put in is, in order, what
    was taken out and then what is still there.  The condition on the sections is
    exact: the first that steals leaves more locks and posts woken than the queue
    can serve. -/
theorem lwip_contract {k : Kernel} (h : (kernel.restrict LwipRun).Reach k) :
    (∀ x q, k.queue x = some q → q.ucIsMutex = true → ∀ t u,
      inside t x k.log = true → inside u x k.log = true → t = u) ∧
    (∀ x q, k.queue x = some q → q.isMailbox = true →
      posted x k.log = fetched x k.log ++ q.contents) ∧
    (∀ t x msg r item l, msg.length = sizeofPointer →
      .ret t (sysMboxPost x msg) r item :: l <:+ k.log →
        r = pdPass ∧ session t l = some (.carried (sysMboxPost x msg) msg)) ∧
    (∀ t c item l, .ret t c pdPass item :: l <:+ k.log →
      session t l = some (.carried c item)) ∧
    ∀ k', kernel.Step k .resume k' → (Covered unseen k' ↔ NoSteal unseen k .resume) := by
  refine ⟨fun x q hq hmutex t u => lwip_exclusion h hq hmutex,
    fun x q hq hmailbox => lwip_fifo h hq hmailbox,
    fun t x msg r item l hmsg hl => lwip_post h hmsg hl, ?_, ?_⟩
  · intro t c item l hl
    rcases session_of_ret h.of_restrict hl with ⟨_, hcarried⟩ | ⟨hfailure, _⟩
    · exact hcarried
    · exact absurd hfailure.symm c.failure_ne_pdPass
  · intro k' hstep
    exact covered_iff_noSteal (P := unseen) (fun _ _ => LwipRun.noSteal)
      (fun _ _ _ _ hreach => fits_of_unseen hreach.of_restrict) (fun _ _ hp => hp)
      (fun _ _ _ => not_unseen_of_due) h hstep

/-- A pointer whose lowest byte is `b`. -/
def pointer (b : UInt8) : Item := b :: List.replicate 7 0

/-- Task 0 locks the mutex and posts two messages; task 1 fetches one and blocks on
    the lock. -/
def layerSchedule : List Action :=
  [.xTaskCreate ⟨true, true⟩ 1, .xTaskCreate ⟨true, true⟩ 1, .vTaskStartScheduler ⟨true, true⟩,
    sysMutexNew (some 0), sysMboxNew (some 0) 2, .call (sysMutexLock 0), .resume, .resume,
    .call (sysMboxPost 1 (pointer 1)), .resume, .resume,
    .call (sysMboxPost 1 (pointer 2)), .resume, .resume, .tick, .tick,
    .call (sysArchMboxFetch 1 0), .resume, .resume,
    .call (sysMutexLock 0), .resume, .resume, .resume]

theorem lwip_contract_two :
    ∃ k q, (kernel.restrict LwipRun).Reach k ∧ inside 0 0 k.log = true ∧
      (∀ t, inside t 0 k.log = true → t = 0) ∧ k.queue 1 = some q ∧
      posted 1 k.log = [pointer 1, pointer 2] ∧ fetched 1 k.log ++ q.contents = posted 1 k.log := by
  obtain ⟨k, hreach, hk⟩ := (kernel.restrict LwipRun).exists_reach layerSchedule
    (fun k => inside 0 0 k.log = true ∧ posted 1 k.log = [pointer 1, pointer 2] ∧
      (k.queue 0).any Queue.ucIsMutex ∧ (k.queue 1).any Queue.isMailbox) (by decide +kernel)
  obtain ⟨hin, hposted, hmutex, hmailbox⟩ := of_decide_eq_true hk
  obtain ⟨q₀, hq₀, hmutex⟩ := (Option.any_eq_true _ _).mp hmutex
  obtain ⟨q₁, hq₁, hmailbox⟩ := (Option.any_eq_true _ _).mp hmailbox
  have hcontract := lwip_contract hreach
  exact ⟨k, q₁, hreach, hin, fun t ht => hcontract.1 0 q₀ hq₀ hmutex t 0 ht hin, hq₁, hposted,
    (hcontract.2.1 1 q₁ hq₁ hmailbox).symm⟩

/-- Task 0 unlocks, which wakes task 1, and locks again before task 1 runs. -/
def relockSchedule : List Action :=
  [.xTaskCreate ⟨true, true⟩ 1, .xTaskCreate ⟨true, true⟩ 1, .vTaskStartScheduler ⟨true, true⟩,
    sysMutexNew (some 0), .call (sysMutexLock 0), .resume, .resume, .tick, .tick,
    .call (sysMutexLock 0), .resume, .resume, .resume, .call (sysMutexUnlock 0), .resume, .resume,
    .call (sysMutexLock 0), .resume, .resume, .tick, .resume, .resume]

/-- Task 0 waits to post into a full mailbox; task 1 fetches, which wakes task 0,
    and posts into the free slot before task 0 runs. -/
def lostPostSchedule : List Action :=
  [.xTaskCreate ⟨true, true⟩ 1, .xTaskCreate ⟨true, true⟩ 1, .vTaskStartScheduler ⟨true, true⟩,
    sysMboxNew (some 0) 1, .call (sysMboxPost 0 (pointer 1)), .resume, .resume,
    .call (sysMboxPost 0 (pointer 2)), .resume, .resume, .resume,
    .call (sysArchMboxFetch 0 0), .resume, .resume,
    .call (sysMboxPost 0 (pointer 3)), .resume, .resume, .tick, .resume, .resume]

/-- Both tasks are inside the mutex; and a returned post has left no trace. -/
theorem lwip_contract_broken :
    (∃ k, (kernel.restrict LwipUse).Run kernel.init relockSchedule k ∧
      (k.queue 0).any Queue.ucIsMutex = true ∧ inside 0 0 k.log = true ∧
        inside 1 0 k.log = true) ∧
    ∃ k, (kernel.restrict LwipUse).Run kernel.init lostPostSchedule k ∧
      k.log.head? = some (.ret 0 (sysMboxPost 0 (pointer 2)) errQueueFull []) ∧
      pointer 2 ∉ posted 0 k.log ∧ pointer 2 ∉ fetched 0 k.log ∧
      (k.queue 0).map Queue.contents = some [pointer 3] := by
  constructor
  · obtain ⟨k, hrun, hk⟩ := (kernel.restrict LwipUse).exists_run relockSchedule
      (fun k => (k.queue 0).any Queue.ucIsMutex = true ∧ inside 0 0 k.log = true ∧
        inside 1 0 k.log = true) (by decide +kernel)
    exact ⟨k, hrun, of_decide_eq_true hk⟩
  · obtain ⟨k, hrun, hk⟩ := (kernel.restrict LwipUse).exists_run lostPostSchedule
      (fun k => k.log.head? = some (.ret 0 (sysMboxPost 0 (pointer 2)) errQueueFull []) ∧
        pointer 2 ∉ posted 0 k.log ∧ pointer 2 ∉ fetched 0 k.log ∧
        (k.queue 0).map Queue.contents = some [pointer 3]) (by decide +kernel)
    exact ⟨k, hrun, of_decide_eq_true hk⟩

end FlintRTOS
