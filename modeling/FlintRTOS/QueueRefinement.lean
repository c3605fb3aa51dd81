import FlintRTOS.QueueBuffer
import FlintRTOS.QueueHistory

/-!
# Queues refine bounded double-ended queues

`replay` runs the transfers of a log on plain sequences: a send appends at the
back or the front, a receive takes the front item and must have been given
exactly that item.  In every run whose queues are created and called within their
contract the replay succeeds, and its result is what the storage of the queue
holds, byte for byte.

Together with `session_of_reach`, which ties each transfer to one call and its
result, this is the refinement: the transfers are the points at which the calls
take effect on the abstract sequence.
-/

namespace FlintRTOS

open CircularBuffer

/-! ### The abstract queue -/

/-- The transfer of `item` by `c` on a sequence of messages. -/
def Call.apply (c : Call) (item : Item) (xs : List Item) : Option (List Item) :=
  match c, xs with
  | prvSend _ _ _ xToFront, xs => some (if xToFront then item :: xs else xs ++ [item])
  | xQueueReceive _ _ _, x :: xs => if x = item then some xs else none
  | xQueueReceive _ _ _, [] => none

variable {c : Call} {k : Kernel} {q : Queue}

theorem Call.apply_receive {item : Item} {xs ys : List Item} (hreceive : c.isSend = false)
    (h : c.apply item xs = some ys) : xs = item :: ys := by
  cases c with
  | prvSend => cases hreceive
  | xQueueReceive =>
    cases xs with
    | nil => cases h
    | cons x xs =>
      obtain ⟨rfl, heq⟩ := Option.ite_none_right_eq_some.mp h
      cases heq
      rfl

/-- The sequence of queue `x` after the logged transfers, newest first. -/
def replay (x : QueueId) : List Event → Option (List Item)
  | [] => none
  | .create y contents :: log => if y = x then some contents else replay x log
  | .delete y :: log => if y = x then none else replay x log
  | .transfer _ c item :: log =>
      if c.xQueue = x then (replay x log).bind (c.apply item) else replay x log
  | .call _ _ :: log => replay x log
  | .ret _ _ _ _ :: log => replay x log
  | .tick :: log => replay x log

/-- Events that concern other queues do not change the sequence. -/
theorem replay_cons_of_ne {x : QueueId} {e : Event} {log : List Event}
    (h : e.queue ≠ some x) : replay x (e :: log) = replay x log := by
  cases e with
  | call => rfl
  | ret => rfl
  | tick => rfl
  | transfer t c item => exact if_neg fun heq => h (by rw [← heq]; rfl)
  | create q contents => exact if_neg fun heq => h (by rw [← heq]; rfl)
  | delete q => exact if_neg fun heq => h (by rw [← heq]; rfl)

/-! ### The callers' contract -/

/-- The pointers a call passes are usable: an item of the right size, and where
    there is an item size neither item nor buffer is NULL. -/
def Call.Usable (c : Call) (q : Queue) : Prop :=
  match c with
  | prvSend _ pvItem _ _ => q.Accepts pvItem ∧ q.sent pvItem = pvItem.getD []
  | xQueueReceive _ pvBuffer _ => 0 < q.uxItemSize → pvBuffer = true

/-- No NULL item or buffer where there is an item size. -/
def Call.nonNull (c : Call) (q : Queue) : Bool :=
  match c with
  | prvSend _ pvItem _ _ => q.uxItemSize = 0 || pvItem.isSome
  | xQueueReceive _ pvBuffer _ => q.uxItemSize = 0 || pvBuffer

/-- Sizes fit the 64-bit types and do not overflow, a counting semaphore starts
    within its maximum, and calls pass no NULL pointer where there is an item
    size. -/
def Kernel.wellUsed (k : Kernel) : Action → Bool
  | .xQueueCreate _ length size => length < 2 ^ 64 && length * size < 2 ^ 64
  | .xQueueCreateCounting _ max init => init ≤ max && max < 2 ^ 64
  | .call c => (k.queue c.xQueue).all c.nonNull
  | _ => true

def WellUsed (k : Kernel) (a : Action) : Prop := k.wellUsed a = true

instance (k : Kernel) (a : Action) : Decidable (WellUsed k a) :=
  inferInstanceAs (Decidable (k.wellUsed a = true))

theorem Call.usable_of_valid (hq : k.queue c.xQueue = some q) (hvalid : k.validCall c = true)
    (hnull : c.nonNull q = true) : c.Usable q := by
  cases c with
  | xQueueReceive x pvBuffer n =>
    intro hpos
    simp only [nonNull, Bool.or_eq_true, decide_eq_true_eq] at hnull
    exact hnull.resolve_left (Nat.ne_of_gt hpos)
  | prvSend x pvItem n xToFront =>
    cases pvItem with
    | none =>
      have hzero : q.uxItemSize = 0 := by simpa [nonNull] using hnull
      constructor
      · intro hpos
        omega
      · simp [Queue.sent]
    | some item =>
      have hlen : item.length = q.uxItemSize := by
        simpa [Kernel.validCall, hq] using hvalid
      refine ⟨fun _ => ⟨item, rfl, hlen⟩, ?_⟩
      by_cases hpos : 0 < q.uxItemSize
      · simp [Queue.sent, hpos]
      · have hnil : item = [] := List.length_eq_zero_iff.mp (by omega)
        simp [Queue.sent, hnil]

theorem Call.Usable.congr {q' : Queue} (h : c.Usable q) (hsize : q'.uxItemSize = q.uxItemSize) :
    c.Usable q' := by
  cases c with
  | xQueueReceive x pvBuffer n =>
    intro hpos
    exact h (hsize ▸ hpos)
  | prvSend x pvItem n xToFront =>
    refine ⟨?_, ?_⟩
    · intro hpos
      rw [hsize] at hpos ⊢
      exact h.1 hpos
    · rw [← h.2]
      simp only [Queue.sent, hsize]

/-! ### One transfer -/

theorem Queue.Represents.settled {b : CircularBuffer Item} (h : q.Represents b) (c : Call)
    (t : TaskId) : (c.settled t q).Represents b := by
  unfold Call.settled
  split
  · exact ⟨h.size, h.count, h.slots, h.tail, h.cursors⟩
  · exact h

/-- A possible call with usable pointers does not fault, and what it does to the
    storage is what the abstract operation does to the sequence. -/
theorem Call.copy_represents {b : CircularBuffer Item} (h : q.Represents b) (husable : c.Usable q)
    (hpossible : c.possible q = true) :
    ∃ item q' b', c.copy q = some (item, q') ∧ q'.Represents b' ∧
      c.apply item b.contents = some b'.contents := by
  cases c with
  | prvSend x pvItem n xToFront =>
    obtain ⟨haccepts, hsent⟩ := husable
    have hspace : b.count < b.size := by
      rw [h.count, h.size]
      simpa [possible] using hpossible
    cases xToFront with
    | true =>
      obtain ⟨q', hcopy, hrep⟩ := h.pushFront haccepts hspace
      refine ⟨pvItem.getD [], q', _, by simp [copy, hcopy], hrep, ?_⟩
      rw [contents_pushFront, hsent]
      rfl
    | false =>
      obtain ⟨q', hcopy, hrep⟩ := h.pushBack haccepts hspace
      refine ⟨pvItem.getD [], q', _, by simp [copy, hcopy], hrep, ?_⟩
      rw [contents_pushBack, hsent]
      rfl
  | xQueueReceive x pvBuffer n =>
    have hsome : 0 < b.count := by
      rw [h.count]
      simpa [possible] using hpossible
    obtain ⟨q', hcopy, hrep⟩ := h.popFront husable hsome
    refine ⟨_, q', _, hcopy, hrep, ?_⟩
    rw [contents_popFront b hsome]
    simp [apply]

/-! ### Creation -/

theorem newQueue_represents {a : Action} {contents : List Item} (hused : WellUsed k a)
    (hnew : a.newQueue = some (q, contents)) :
    q.uxLength < 2 ^ 64 ∧ ∃ b, q.Represents b ∧ b.contents = contents := by
  -- the semaphores: no item size, `n` tokens
  have htokens : ∀ p size n : Nat, 0 < size → n ≤ size →
      ∃ b, ((Queue.initial p size 0).setMessagesWaiting n).Represents b ∧
        b.contents = List.replicate n [] := by
    intro p size n hsize hn
    have hzero : ¬ 0 < (Queue.initial p size 0).uxItemSize := by simp
    have hrep := Queue.initial_represents (p := p) hsize
      (show size * 0 < 2 ^ 64 by rw [Nat.mul_zero]; decide)
    refine ⟨newBuffer size hsize (Queue.initial p size 0).slot n hn,
      hrep.count_only hzero (newBuffer size hsize _ n hn) rfl fun _ => Or.inl rfl, ?_⟩
    refine List.eq_replicate_iff.mpr ⟨length_contents _, ?_⟩
    intro item hitem
    obtain ⟨i, _, rfl⟩ := List.mem_map.mp hitem
    exact Queue.slot_of_zero hzero
      ((newBuffer size hsize (Queue.initial p size 0).slot n hn).index i)
  cases a with
  | xQueueCreate pxQueue length size =>
    cases pxQueue with
    | none => cases hnew
    | some p =>
      obtain ⟨hlength, heq⟩ := Option.ite_none_left_eq_some.mp hnew
      cases heq
      simp only [WellUsed, Kernel.wellUsed, Bool.and_eq_true, decide_eq_true_eq] at hused
      exact ⟨hused.1, _, Queue.initial_represents (Nat.pos_of_ne_zero hlength) hused.2, rfl⟩
  | xQueueCreateCounting pxQueue max init =>
    cases pxQueue with
    | none => cases hnew
    | some p =>
      obtain ⟨hmax, heq⟩ := Option.ite_none_left_eq_some.mp hnew
      cases heq
      simp only [WellUsed, Kernel.wellUsed, Bool.and_eq_true, decide_eq_true_eq] at hused
      exact ⟨hused.2, htokens _ _ _ (Nat.pos_of_ne_zero hmax) hused.1⟩
  | xQueueCreateMutex pxQueue =>
    cases pxQueue with
    | none => cases hnew
    | some p =>
      cases hnew
      have hlength : (Queue.newMutex p).uxLength = 1 := rfl
      refine ⟨by rw [hlength]; decide, ?_⟩
      obtain ⟨b, hrep, hcontents⟩ := htokens p 1 1 Nat.one_pos (Nat.le_refl _)
      exact ⟨b, ⟨hrep.size, hrep.count, hrep.slots, hrep.tail, hrep.cursors⟩, hcontents⟩
  | _ => cases hnew

/-! ### Every run -/

/-- The calls in progress have usable pointers. -/
theorem usable_of_reach (h : (kernel.restrict WellUsed).Reach k) :
    ∀ t c q, (k.stage t).call = some c → k.queue c.xQueue = some q → c.Usable q := by
  refine call_invariant (U := Call.Usable) ?_ ?_ h
  · intro k c q hused hvalid hq
    refine Call.usable_of_valid hq hvalid ?_
    simpa [WellUsed, Kernel.wellUsed, hq] using hused
  · intro c c' t q q₁ item _ hcopy husable
    refine husable.congr ?_
    rw [Call.settled_uxItemSize, (Call.copy_fields hcopy).2.1]

/-- The storage of every queue holds the replayed sequence. -/
theorem stored_of_reach (h : (kernel.restrict WellUsed).Reach k) :
    ∀ x q, k.queue x = some q → q.uxLength < 2 ^ 64 ∧
      ∃ b, q.Represents b ∧ replay x k.log = some b.contents := by
  refine queue_invariant (P := fun x q log => q.uxLength < 2 ^ 64 ∧
    ∃ b, q.Represents b ∧ replay x log = some b.contents) ?_ ?_ ?_ h
  · intro k a q contents hused hnew
    obtain ⟨hlength, b, hrep, hcontents⟩ := newQueue_represents hused hnew
    exact ⟨hlength, b, hrep, by simp [replay, hcontents]⟩
  · rintro k t c q q₁ item hreach hstage hqueue hpossible hcopy ⟨hlength, b, hrep, hreplay⟩
    have husable := usable_of_reach hreach t c q (Kernel.call_of_look hstage) hqueue
    obtain ⟨item', q₁', b', hcopy', hrep', happly⟩ :=
      Call.copy_represents hrep husable hpossible
    cases hcopy.symm.trans hcopy'
    refine ⟨by simpa [(Call.copy_fields hcopy).1] using hlength, b', hrep'.settled c t, ?_⟩
    simp [replay, hreplay, happly]
  · rintro x q e log hother ⟨hlength, b, hrep, hreplay⟩
    refine ⟨hlength, b, hrep, ?_⟩
    rw [replay_cons_of_ne hother]
    exact hreplay

/-- No message copy leaves the storage of its queue. -/
theorem wellUsed_safe (h : (kernel.restrict WellUsed).Reach k) :
    (kernel.restrict WellUsed).Safe k := by
  rintro a ⟨hadmits, _⟩
  rcases (kernel_inv h.of_restrict).effect hadmits with ⟨k', hexec, _⟩ | ⟨_, _, hfault⟩
  · exact ⟨k', hexec⟩
  · obtain ⟨t, c, q, _, hstage, hq, hpossible, hcopy⟩ := hfault
    obtain ⟨_, b, hrep, _⟩ := stored_of_reach h _ q hq
    obtain ⟨item, q', b', hcopy', _⟩ := Call.copy_represents hrep
      (usable_of_reach h t c q (Kernel.call_of_look hstage) hq) hpossible
    cases hcopy.symm.trans hcopy'

/-- **Queues refine bounded double-ended queues.**  In every run within the
    callers' contract, for every queue there is a sequence of at most `uxLength`
    messages that the transfers so far produce from the creation on, a receive
    always handing out the front message; the storage holds that sequence, and the
    two counting functions return its length and the room left.  A send transfers the
    item of its caller.  Every task's events form a sequence of calls in which a call
    that returns `pdPASS` has made exactly one transfer, with the item it returns, and
    a call that fails none.  Nothing faults. -/
theorem queue_refines_deque {k : Kernel}
    (h : (kernel.restrict WellUsed).Reach k) :
    (∀ x q, k.queue x = some q → ∃ xs, replay x k.log = some xs ∧ q.contents = xs ∧
      xs.length ≤ q.uxLength ∧ uxQueueMessagesWaiting q = xs.length ∧
      uxQueueSpacesAvailable q = q.uxLength - xs.length) ∧
    (∀ t x pvItem n xToFront item, .transfer t (.prvSend x pvItem n xToFront) item ∈ k.log →
      item = pvItem.getD []) ∧
    (∀ t, session t k.log = some (k.stage t).session) ∧
    (kernel.restrict WellUsed).Safe k := by
  refine ⟨?_, fun _ _ _ _ _ _ he => transfer_item h.of_restrict he,
    fun t => (session_of_reach h.of_restrict t).1, wellUsed_safe h⟩
  intro x q hq
  obtain ⟨hlength, b, hrep, hreplay⟩ := stored_of_reach h x q hq
  have hcount : q.uxMessagesWaiting ≤ q.uxLength := by
    rw [← hrep.count, ← hrep.size]
    exact b.count_le
  refine ⟨b.contents, hreplay, hrep.contents, ?_, ?_, ?_⟩
  · rw [length_contents, ← hrep.size]
    exact b.count_le
  · rw [length_contents, hrep.count]
    rfl
  · rw [length_contents, hrep.count, uxQueueSpacesAvailable]
    have hsub : q.uxLength + 2 ^ 64 - q.uxMessagesWaiting =
        q.uxLength - q.uxMessagesWaiting + 2 ^ 64 := by omega
    rw [hsub, Nat.add_mod_right, Nat.mod_eq_of_lt (by omega)]

/-- Two messages of two bytes are sent, one to the back and one to the front, and
    the front one is received. -/
def twoSendsSchedule : List Action :=
  [.xTaskCreate ⟨true, true⟩ 1, .vTaskStartScheduler ⟨true, true⟩, .xQueueCreate (some 0) 2 2,
    .call (xQueueSendToBack 0 (some [1, 2]) 0), .resume, .resume,
    .call (xQueueSendToFront 0 (some [3, 4]) 0), .resume, .resume,
    .call (.xQueueReceive 0 true 0), .resume, .resume]

theorem queue_refines_deque_two : ∃ k q, (kernel.restrict WellUsed).Reach k ∧
    k.queue 0 = some q ∧ k.log.head? = some (.ret 0 (.xQueueReceive 0 true 0) pdPass [3, 4]) ∧
    replay 0 k.log = some [[1, 2]] ∧ q.contents = [[1, 2]] ∧
    uxQueueSpacesAvailable q = 1 ∧
    ∃ item, .transfer 0 (xQueueSendToFront 0 (some [3, 4]) 0) item ∈ k.log ∧ item = [3, 4] := by
  obtain ⟨k, hreach, hk⟩ := (kernel.restrict WellUsed).exists_reach twoSendsSchedule
    (fun k => (k.queue 0).isSome ∧ replay 0 k.log = some [[1, 2]] ∧
      k.log.head? = some (.ret 0 (.xQueueReceive 0 true 0) pdPass [3, 4]) ∧
      (k.queue 0).map Queue.uxLength = some 2 ∧
      .transfer 0 (xQueueSendToFront 0 (some [3, 4]) 0) [3, 4] ∈ k.log) (by decide +kernel)
  obtain ⟨hsome, hreplay, hlog, hlength, hsent⟩ := of_decide_eq_true hk
  obtain ⟨q, hq⟩ := Option.isSome_iff_exists.mp hsome
  obtain ⟨hqueue, hitem, -⟩ := queue_refines_deque hreach
  obtain ⟨xs, hxs, hcontents, _, _, hspaces⟩ := hqueue 0 q hq
  cases hreplay.symm.trans hxs
  have hlength : q.uxLength = 2 := by simpa [hq] using hlength
  exact ⟨k, q, hreach, hq, hlog, hreplay, hcontents, by rw [hspaces, hlength]; rfl,
    _, hsent, hitem _ _ _ _ _ _ hsent⟩

end FlintRTOS
