import FlintRTOS.CircularBuffer
import FlintRTOS.Queue

/-!
# A queue is a circular buffer

The storage of a queue is cut into `uxLength` slots of `uxItemSize` bytes.
`Queue.Represents q b` relates the record and its bytes to a circular buffer of
messages: the two pointers are the cursors of `b`, in slots, and every slot of
`b` holds the bytes at its place.  `prvCopyIn` and `prvCopyOut` are then the
buffer's own operations.

A queue without an item size has no storage and its pointers never move; its
messages are empty and only the count matters.
-/

namespace FlintRTOS

open CircularBuffer

/-- The bytes of slot `i`. -/
def Queue.slot (q : Queue) (i : Nat) : Item :=
  memcpyOut q.memory (q.pcHead + i * q.uxItemSize) q.uxItemSize

/-- The messages in the queue, from the front to the back. -/
def Queue.contents (q : Queue) : List Item :=
  (List.range q.uxMessagesWaiting).map fun i =>
    q.slot (((q.pcReadFrom - q.pcHead) / q.uxItemSize + 1 + i) % q.uxLength)

structure Queue.Represents (q : Queue) (b : CircularBuffer Item) : Prop where
  size : b.size = q.uxLength
  count : b.count = q.uxMessagesWaiting
  slots : ∀ i, i < b.size → b.slot i = q.slot i
  tail : q.pcTail = q.pcHead + b.size * q.uxItemSize
  cursors : 0 < q.uxItemSize →
    q.pcReadFrom = q.pcHead + b.read * q.uxItemSize ∧
    q.pcWriteTo = q.pcHead + b.write * q.uxItemSize

/-! ### Bytes -/

@[simp] theorem length_memcpyOut (memory : Nat → UInt8) (p n : Nat) :
    (memcpyOut memory p n).length = n := by
  simp [memcpyOut]

theorem memcpyOut_memcpyIn_self (memory : Nat → UInt8) (p : Nat) (item : Item) :
    memcpyOut (memcpyIn memory p item) p item.length = item := by
  refine List.ext_getElem (by simp) ?_
  intro j hj hj'
  simp [memcpyOut, memcpyIn, hj']

/-- A copy to another place does not show in these bytes. -/
theorem memcpyOut_memcpyIn_disjoint {memory : Nat → UInt8} {p p' n : Nat} {item : Item}
    (hdisjoint : p + n ≤ p' ∨ p' + item.length ≤ p) :
    memcpyOut (memcpyIn memory p' item) p n = memcpyOut memory p n := by
  refine List.map_congr_left ?_
  intro j hj
  have hj := List.mem_range.mp hj
  have hout : ¬ (p' ≤ p + j ∧ p + j < p' + item.length) := by omega
  simp only [memcpyIn, hout, if_false]

theorem slots_disjoint {i j n : Nat} (hne : i ≠ j) (p : Nat) :
    p + i * n + n ≤ p + j * n ∨ p + j * n + n ≤ p + i * n := by
  rcases Nat.lt_or_gt_of_ne hne with h | h
  · left
    have := Nat.mul_le_mul_right n h
    rw [Nat.succ_mul] at this
    omega
  · right
    have := Nat.mul_le_mul_right n h
    rw [Nat.succ_mul] at this
    omega

theorem slot_in_storage {i size n : Nat} (h : i < size) (p : Nat) :
    p + i * n + n ≤ p + size * n := by
  have := Nat.mul_le_mul_right n h
  rw [Nat.succ_mul] at this
  omega

/-- Filling slot `w` with an item of the right length. -/
theorem slot_update {q q' : Queue} {w : Nat} {item : Item}
    (hlen : item.length = q.uxItemSize) (hhead : q'.pcHead = q.pcHead)
    (hsize : q'.uxItemSize = q.uxItemSize)
    (hmem : q'.memory = memcpyIn q.memory (q.pcHead + w * q.uxItemSize) item) (i : Nat) :
    q'.slot i = Function.update q.slot w item i := by
  rw [Queue.slot, hhead, hsize, hmem]
  by_cases hi : i = w
  · subst hi
    rw [Function.update_self, ← hlen]
    exact memcpyOut_memcpyIn_self _ _ _
  · rw [Function.update_of_ne hi]
    refine memcpyOut_memcpyIn_disjoint ?_
    rw [hlen]
    exact slots_disjoint hi _

/-! ### Pointers -/

/-- The pointer increment with the test `>= pcTail` is the next slot. -/
theorem pointer_next {head n size i : Nat} (hn : 0 < n) (hi : i < size) :
    (if head + i * n + n ≥ head + size * n then head else head + i * n + n) =
      head + next size i * n := by
  have hsucc : head + i * n + n = head + (i + 1) * n := by
    rw [Nat.succ_mul]
    omega
  unfold next
  by_cases hlt : i + 1 < size
  · have hmul : (i + 1) * n < size * n := Nat.mul_lt_mul_of_pos_right hlt hn
    rw [if_pos hlt, if_neg (by omega), hsucc]
  · have hend : i + 1 = size := by omega
    rw [if_neg hlt, if_pos (by rw [hsucc, hend]), Nat.zero_mul, Nat.add_zero]

/-- The pointer decrement with the test `== pcHead` is the slot before. -/
theorem pointer_prev {head n size i : Nat} (hn : 0 < n) (hi : i < size) :
    (if head + i * n = head then head + size * n - n else head + i * n - n) =
      head + prev size i * n := by
  unfold prev
  by_cases hzero : i = 0
  · subst hzero
    have hle : n ≤ size * n := Nat.le_mul_of_pos_left n hi
    rw [if_pos rfl, if_pos (by omega), Nat.sub_mul, Nat.one_mul]
    omega
  · have hpos : n ≤ i * n := Nat.le_mul_of_pos_left n (Nat.pos_of_ne_zero hzero)
    rw [if_neg hzero, if_neg (by omega), Nat.sub_mul, Nat.one_mul]
    omega

/-! ### The operations -/

namespace Queue

variable {q : Queue} {b : CircularBuffer Item}

theorem Represents.contents (h : q.Represents b) : q.contents = b.contents := by
  rw [Queue.contents, CircularBuffer.contents, ← h.count]
  refine List.map_congr_left ?_
  intro i _
  rw [← h.size, h.slots _ (b.index_lt i)]
  rcases Nat.eq_zero_or_pos q.uxItemSize with hzero | hpos
  · -- without an item size every slot is the empty message
    simp [slot, hzero, memcpyOut]
  · have hread : (q.pcReadFrom - q.pcHead) / q.uxItemSize = b.read := by
      rw [(h.cursors hpos).1, Nat.add_sub_cancel_left, Nat.mul_div_cancel _ hpos]
    rw [hread]
    rfl

/-- What a send puts into the queue: the item, or nothing when there is no item
    size. -/
def sent (q : Queue) (pvItem : Option Item) : Item :=
  if 0 < q.uxItemSize then pvItem.getD [] else []

/-- A non-NULL item of the right size where there is an item size. -/
def Accepts (q : Queue) (pvItem : Option Item) : Prop :=
  0 < q.uxItemSize → ∃ item, pvItem = some item ∧ item.length = q.uxItemSize

theorem slot_of_zero (hzero : ¬ 0 < q.uxItemSize) (i : Nat) : q.slot i = [] := by
  have h : q.uxItemSize = 0 := by omega
  simp [slot, h, memcpyOut]

theorem Represents.count_only (h : q.Represents b) (hzero : ¬ 0 < q.uxItemSize)
    (b' : CircularBuffer Item) (hsize : b'.size = b.size)
    (hslot : ∀ i, b'.slot i = b.slot i ∨ b'.slot i = []) :
    (q.setMessagesWaiting b'.count).Represents b' := by
  refine ⟨hsize.trans h.size, rfl, ?_, ?_, fun hpos => absurd hpos hzero⟩
  · intro i hi
    have hnil : (q.setMessagesWaiting b'.count).slot i = [] := slot_of_zero hzero i
    rw [hnil]
    rcases hslot i with hs | hs
    · rw [hs, h.slots i (hsize ▸ hi)]
      exact slot_of_zero hzero i
    · exact hs
  · rw [hsize]
    exact h.tail

theorem prvCopyIn_of_zero (hzero : ¬ 0 < q.uxItemSize) (pvItem : Option Item)
    (xToFront : Bool) : prvCopyIn pvItem xToFront q = some q.incrMessages := by
  cases pvItem with
  | none => rfl
  | some item => simp only [prvCopyIn, if_neg hzero]

theorem update_nil (slot : Nat → Item) (w i : Nat) :
    Function.update slot w [] i = slot i ∨ Function.update slot w [] i = [] := by
  by_cases hi : i = w
  · subst hi
    exact Or.inr (Function.update_self _ _ _)
  · exact Or.inl (Function.update_of_ne hi _ _)

/-- A copy into slot `w` of the storage is an update of slot `w` of the buffer. -/
theorem Represents.slots_update (h : q.Represents b) {q' : Queue} {w : Nat} {item : Item}
    (hlen : item.length = q.uxItemSize) (hhead : q'.pcHead = q.pcHead)
    (hsize : q'.uxItemSize = q.uxItemSize)
    (hmem : q'.memory = memcpyIn q.memory (q.pcHead + w * q.uxItemSize) item) :
    ∀ i, i < b.size → Function.update b.slot w item i = q'.slot i := by
  intro i hi
  rw [slot_update hlen hhead hsize hmem i]
  by_cases hw : i = w
  · subst hw
    rw [Function.update_self, Function.update_self]
  · rw [Function.update_of_ne hw, Function.update_of_ne hw]
    exact h.slots i hi

theorem Represents.pushBack (h : q.Represents b) {pvItem : Option Item}
    (haccepts : q.Accepts pvItem) (hspace : b.count < b.size) :
    ∃ q', prvCopyIn pvItem false q = some q' ∧
      q'.Represents (b.pushBack (q.sent pvItem) hspace) := by
  by_cases hpos : 0 < q.uxItemSize
  · obtain ⟨item, rfl, hlen⟩ := haccepts hpos
    obtain ⟨hread, hwrite⟩ := h.cursors hpos
    have hlt : b.write < b.size := b.index_lt _
    have hin : q.inStorage q.pcWriteTo = true := by
      rw [inStorage, decide_eq_true_iff, hwrite, h.tail]
      exact ⟨Nat.le_add_right _ _, slot_in_storage hlt _⟩
    refine ⟨(q.copyToBack item).incrMessages, ?_, ?_⟩
    · simp only [prvCopyIn, if_pos hpos, hin, if_true, Bool.false_eq_true, if_false]
    · refine ⟨h.size, congrArg (· + 1) h.count, ?_, h.tail, ?_⟩
      · rw [sent, if_pos hpos]
        refine h.slots_update hlen rfl rfl ?_
        rw [← hwrite]
        rfl
      · intro _
        refine ⟨hread, ?_⟩
        rw [write_pushBack]
        simp only [incrMessages_pcWriteTo, copyToBack_pcWriteTo, incrMessages_pcHead,
          copyToBack_pcHead, incrMessages_uxItemSize, copyToBack_uxItemSize, hwrite, h.tail]
        exact pointer_next hpos hlt
  · refine ⟨q.incrMessages, prvCopyIn_of_zero hpos _ _, ?_⟩
    have hcount : q.incrMessages =
        q.setMessagesWaiting (b.pushBack (q.sent pvItem) hspace).count := by
      simp only [incrMessages, CircularBuffer.pushBack, h.count]
    rw [hcount]
    refine h.count_only hpos _ rfl ?_
    intro i
    simp only [CircularBuffer.pushBack, sent, if_neg hpos]
    exact update_nil _ _ i

theorem Represents.pushFront (h : q.Represents b) {pvItem : Option Item}
    (haccepts : q.Accepts pvItem) (hspace : b.count < b.size) :
    ∃ q', prvCopyIn pvItem true q = some q' ∧
      q'.Represents (b.pushFront (q.sent pvItem) hspace) := by
  by_cases hpos : 0 < q.uxItemSize
  · obtain ⟨item, rfl, hlen⟩ := haccepts hpos
    obtain ⟨hread, hwrite⟩ := h.cursors hpos
    have hin : q.inStorage q.pcReadFrom = true := by
      rw [inStorage, decide_eq_true_iff, hread, h.tail]
      exact ⟨Nat.le_add_right _ _, slot_in_storage b.read_lt _⟩
    refine ⟨(q.copyToFront item).incrMessages, ?_, ?_⟩
    · simp only [prvCopyIn, if_pos hpos, hin, if_true]
    · refine ⟨h.size, congrArg (· + 1) h.count, ?_, h.tail, ?_⟩
      · rw [sent, if_pos hpos]
        refine h.slots_update hlen rfl rfl ?_
        rw [← hread]
        rfl
      · intro _
        rw [write_pushFront]
        refine ⟨?_, hwrite⟩
        simp only [incrMessages_pcReadFrom, copyToFront_pcReadFrom, incrMessages_pcHead,
          copyToFront_pcHead, incrMessages_uxItemSize, copyToFront_uxItemSize, hread, h.tail]
        exact pointer_prev hpos b.read_lt
  · refine ⟨q.incrMessages, prvCopyIn_of_zero hpos _ _, ?_⟩
    have hcount : q.incrMessages =
        q.setMessagesWaiting (b.pushFront (q.sent pvItem) hspace).count := by
      simp only [incrMessages, CircularBuffer.pushFront, h.count]
    rw [hcount]
    refine h.count_only hpos _ rfl ?_
    intro i
    simp only [CircularBuffer.pushFront, sent, if_neg hpos]
    exact update_nil _ _ i

theorem Represents.popFront (h : q.Represents b) {pvBuffer : Bool}
    (hbuffer : 0 < q.uxItemSize → pvBuffer = true) (hsome : 0 < b.count) :
    ∃ q', prvCopyOut pvBuffer q = some (b.slot (next b.size b.read), q') ∧
      q'.Represents b.popFront := by
  have hfront : next b.size b.read < b.size := by
    rw [next_read]
    exact b.index_lt 0
  by_cases hpos : 0 < q.uxItemSize
  · obtain ⟨hread, hwrite⟩ := h.cursors hpos
    have hadvance : q.advanceRead.pcReadFrom =
        q.pcHead + next b.size b.read * q.uxItemSize := by
      rw [advanceRead_pcReadFrom, hread, h.tail]
      exact pointer_next hpos b.read_lt
    have hin : q.advanceRead.inStorage q.advanceRead.pcReadFrom = true := by
      rw [inStorage, decide_eq_true_iff, hadvance, advanceRead_pcTail, h.tail]
      exact ⟨Nat.le_add_right _ _, slot_in_storage hfront _⟩
    refine ⟨q.advanceRead.decrMessages, ?_, ?_⟩
    · simp only [prvCopyOut, if_pos hpos, hbuffer hpos, hin, Bool.and_self, if_true]
      rw [h.slots _ hfront, hadvance]
      rfl
    · refine ⟨h.size, congrArg (· - 1) h.count, h.slots, h.tail, ?_⟩
      intro _
      rw [write_popFront _ hsome]
      exact ⟨hadvance, hwrite⟩
  · refine ⟨q.decrMessages, ?_, ?_⟩
    · rw [h.slots _ hfront, slot_of_zero hpos]
      simp only [prvCopyOut, if_neg hpos]
    · have hcount : q.decrMessages = q.setMessagesWaiting b.popFront.count := by
        simp only [decrMessages, CircularBuffer.popFront, h.count]
      rw [hcount]
      exact h.count_only hpos _ rfl fun i => Or.inl rfl

end Queue

/-! ### Creation -/

/-- The buffer of a new queue, holding `n` empty messages. -/
def newBuffer (size : Nat) (hsize : 0 < size) (slot : Nat → Item) (n : Nat)
    (hn : n ≤ size) : CircularBuffer Item where
  size := size
  slot := slot
  read := size - 1
  count := n
  read_lt := Nat.sub_lt hsize Nat.one_pos
  count_le := hn

/-- A new queue whose storage size does not overflow is an empty buffer. -/
theorem Queue.initial_represents {p uxQueueLength uxItemSize : Nat}
    (hlength : 0 < uxQueueLength) (hsize : uxQueueLength * uxItemSize < 2 ^ 64) :
    (Queue.initial p uxQueueLength uxItemSize).Represents
      (newBuffer uxQueueLength hlength (Queue.initial p uxQueueLength uxItemSize).slot 0
        (Nat.zero_le _)) := by
  refine ⟨rfl, rfl, fun _ _ => rfl, ?_, ?_⟩
  · simp only [Queue.initial_pcTail, Queue.initial_pcHead, Nat.mod_eq_of_lt hsize]
    rfl
  · intro hpos
    rw [Queue.initial_uxItemSize] at hpos
    constructor
    · have hlt : (uxQueueLength - 1) * uxItemSize < 2 ^ 64 :=
        Nat.lt_of_le_of_lt (Nat.mul_le_mul_right _ (Nat.sub_le _ _)) hsize
      simp only [Queue.initial_pcReadFrom, Queue.initial_pcHead, if_pos hpos,
        Nat.mod_eq_of_lt hlt]
      rfl
    · have hwrite : (newBuffer uxQueueLength hlength
          (Queue.initial p uxQueueLength uxItemSize).slot 0 (Nat.zero_le _)).write = 0 := by
        change (uxQueueLength - 1 + 1 + 0) % uxQueueLength = 0
        rw [Nat.add_zero, Nat.sub_add_cancel hlength, Nat.mod_self]
      rw [hwrite, Nat.zero_mul, Nat.add_zero]
      rfl

end FlintRTOS
