import FlintRTOS.Heap4Exact
import FlintRTOS.QueueRefinement
import Mathlib.Logic.Relation

/-!
# The storage of a queue

Where the memory of a queue comes from, and how its cursors move in it.

`xQueueCreate` asks the heap for one block that holds the record and the messages,
and `calloc` of the C library for the network stack asks for a product of its
arguments.  Both sizes are computed modulo 2⁶⁴ before the heap sees them, so the
block is as large as it should be exactly when nothing was lost.

`prvCopyIn` and `prvCopyOut` move a cursor and the count together; the count alone
is changed by the creation of a counting semaphore and by a send of NULL.
-/

namespace FlintRTOS

open Heap4 Tiling CircularBuffer

variable {pool : Pool}

/-! ### Blocks -/

namespace Heap4

/-- The bytes that the block of `pv` has for its owner. -/
def blockBytes (h : Heap) (pv : Nat) : Nat :=
  ((h.mem (pv - xHeapStructSize)).xBlockSize &&& (2 ^ 64 - 1 - heapAllocBit)) - xHeapStructSize

theorem MallocEffect.blockBytes {h h' : Heap} {tiles : List (Tile Nat)} {r pv : Nat}
    (heffect : MallocEffect pool h tiles r pv h') (hpv : pv ≠ 0) :
    r ≤ blockBytes h' pv ∧ blockBytes h' pv < 2 ^ 64 := by
  cases heffect with
  | refused => exact absurd rfl hpv
  | @allocated pre post m h' htiles hsmall hfits htiled hminimum =>
    obtain ⟨rest, hcarve⟩ := exists_carve_eq_cons (xHeapStructSize * 2) (wantedBlockSize r) m r
    rw [hcarve, List.cons_append] at htiled
    have hheld : (pool.start + extent pre, carved (xHeapStructSize * 2) (wantedBlockSize r) m, r) ∈
        heldBlocks pool.start
          (pre ++ ⟨carved (xHeapStructSize * 2) (wantedBlockSize r) m, some r⟩ :: (rest ++ post)) := by
      simp [heldBlocks_append, heldBlocks_cons_some]
    have hlt := htiled.size_lt
    have hrequest := htiled.requests _ hheld
    have hheader := htiled.headers _ hheld
    simp only at hrequest hheader
    rw [Heap4.blockBytes, Nat.add_sub_cancel, hheader, clear_heapAllocBit hlt]
    omega

/-- What `pvPortMalloc` returns from a state that can be reached. -/
theorem blockBytes_of_malloc {s : HeapState} (hreach : (allocator pool).Reach s)
    {xWantedSize : UInt64} {pv : Nat} {h' : Heap}
    (hrun : pvPortMalloc pool xWantedSize s.heap = some (pv, h')) (hpv : pv ≠ 0) :
    xWantedSize.toNat ≤ blockBytes h' pv ∧ blockBytes h' pv < 2 ^ 64 := by
  obtain ⟨tiles, htiled⟩ := exists_tiled hreach
  obtain ⟨pv', h'', hrun', heffect⟩ := pvPortMalloc_spec xWantedSize htiled
  rw [pvPortMalloc_ensureInitialised _ _ htiled.ensureInitialised_eq, hrun] at hrun'
  cases hrun'
  exact heffect.blockBytes hpv

end Heap4

/-! ### Creation from the heap -/

namespace Storage

/-- `xQueueCreate` with the heap it takes the block from. -/
def xQueueCreate (pool : Pool) (xQueue : QueueId) (uxQueueLength uxItemSize : UInt64) (h : Heap)
    (s : Sched) : Option (Option Queue × Heap × Sched) :=
  if uxQueueLength = 0 then some (none, h, s)
  else do
    let xStorage := uxQueueLength * uxItemSize
    let (pxQueue, h) ← pvPortMalloc pool (UInt64.ofNat sizeofQueue + xStorage) h
    let (q, s) ← FlintRTOS.xQueueCreate xQueue (if pxQueue = 0 then none else some pxQueue)
      uxQueueLength.toNat uxItemSize.toNat s
    return (q, h, s)

/-- The bytes from `p` on are set to 0.  A header-sized view that is not wholly among
    them is left as it is: it belongs to no header of the heap. -/
def clearBytes (mem : Nat → BlockLink) (p n : Nat) : Nat → BlockLink := fun x =>
  if p ≤ x ∧ x + xHeapStructSize ≤ p + n then ⟨0, 0⟩ else mem x

/-- `calloc` of `lwip_libc.c`. -/
def calloc (pool : Pool) (a b : UInt64) (h : Heap) : Option (Nat × Heap) := do
  let total := a * b
  let (p, h) ← pvPortMalloc pool total h
  if p ≠ 0 then return (p, { h with mem := clearBytes h.mem p total.toNat })
  else return (p, h)

/-- A queue that was created is the initial record at the block. -/
theorem xQueueCreate_cases {xQueue : QueueId} {uxQueueLength uxItemSize : UInt64} {h h' : Heap}
    {s s' : Sched} {q : Queue}
    (hrun : xQueueCreate pool xQueue uxQueueLength uxItemSize h s = some (some q, h', s')) :
    ∃ pxQueue, pvPortMalloc pool (UInt64.ofNat sizeofQueue + uxQueueLength * uxItemSize) h =
        some (pxQueue, h') ∧ pxQueue ≠ 0 ∧ 0 < uxQueueLength.toNat ∧
      q = Queue.initial pxQueue uxQueueLength.toNat uxItemSize.toNat := by
  unfold xQueueCreate at hrun
  split at hrun
  · cases hrun
  · rename_i hlength
    obtain ⟨⟨pxQueue, h₁⟩, hmalloc, hrest⟩ := Option.bind_eq_some_iff.mp hrun
    obtain ⟨⟨q₁, s₁⟩, hcreate, heq⟩ := Option.bind_eq_some_iff.mp hrest
    cases heq
    have hpos : uxQueueLength.toNat ≠ 0 := by
      intro hzero
      exact hlength (UInt64.toNat_inj.mp hzero)
    refine ⟨pxQueue, hmalloc, ?_⟩
    by_cases hnull : pxQueue = 0
    · rw [if_pos hnull] at hcreate
      cases hcreate
    · rw [if_neg hnull] at hcreate
      simp only [FlintRTOS.xQueueCreate, if_neg hpos] at hcreate
      obtain ⟨s₂, -, heq⟩ := Option.bind_eq_some_iff.mp hcreate
      cases heq
      exact ⟨hnull, Nat.pos_of_ne_zero hpos, rfl⟩

/-- The size that is asked for is the sum, unless that does not fit. -/
theorem toNat_request (uxQueueLength uxItemSize : UInt64) :
    (UInt64.ofNat sizeofQueue + uxQueueLength * uxItemSize).toNat =
      (sizeofQueue + uxQueueLength.toNat * uxItemSize.toNat) % 2 ^ 64 := by
  have hsize : (UInt64.ofNat sizeofQueue).toNat = sizeofQueue := by decide
  rw [UInt64.toNat_add, UInt64.toNat_mul, hsize, Nat.add_mod_mod]

theorem calloc_cases {a b : UInt64} {h h' : Heap} {p : Nat} (hrun : calloc pool a b h = some (p, h'))
    (hp : p ≠ 0) : ∃ h₁, pvPortMalloc pool (a * b) h = some (p, h₁) ∧
      blockBytes h' p = blockBytes h₁ p := by
  obtain ⟨⟨p₁, h₁⟩, hmalloc, hrest⟩ := Option.bind_eq_some_iff.mp hrun
  by_cases hnull : p₁ ≠ 0
  · simp only [if_pos hnull] at hrest
    cases hrest
    refine ⟨h₁, hmalloc, ?_⟩
    -- the header is in front of what is cleared
    have hbefore : ¬ (p ≤ p - xHeapStructSize ∧
        p - xHeapStructSize + xHeapStructSize ≤ p + (a * b).toNat) := by
      simp only [xHeapStructSize]
      omega
    have hheader : clearBytes h₁.mem p (a * b).toNat (p - xHeapStructSize) =
        h₁.mem (p - xHeapStructSize) := if_neg hbefore
    rw [blockBytes, blockBytes]
    simp only [hheader]
  · simp only [if_neg hnull] at hrest
    cases hrest
    exact absurd hp hnull

end Storage

/-! ### Cursors -/

namespace Queue

/-- One copy, by a send or a receive. -/
def CopyStep (q q' : Queue) : Prop :=
  (∃ pvItem xToFront, prvCopyIn pvItem xToFront q = some q') ∨
    ∃ pvBuffer item, prvCopyOut pvBuffer q = some (item, q')

/-- Where the next copy may go: `pcWriteTo` and `pcReadFrom` for a send to the back or
    the front, and the place a receive moves on to. -/
def copyPlaces (q : Queue) : List Nat := [q.pcWriteTo, q.pcReadFrom, q.advanceRead.pcReadFrom]

/-- The cursors stand at slots of the storage. -/
structure InSlots (q : Queue) : Prop where
  tail : q.pcTail = q.pcHead + q.uxLength * q.uxItemSize
  read : ∃ i, i < q.uxLength ∧ q.pcReadFrom = q.pcHead + i * q.uxItemSize
  write : ∃ i, i < q.uxLength ∧ q.pcWriteTo = q.pcHead + i * q.uxItemSize

variable {q q' : Queue}

theorem initial_inSlots {pxQueue uxQueueLength uxItemSize : Nat} (hlength : 0 < uxQueueLength)
    (hsize : uxQueueLength * uxItemSize < 2 ^ 64) (hpos : 0 < uxItemSize) :
    (initial pxQueue uxQueueLength uxItemSize).InSlots := by
  have hlast : (uxQueueLength - 1) * uxItemSize < 2 ^ 64 :=
    Nat.lt_of_le_of_lt (Nat.mul_le_mul_right _ (Nat.sub_le _ _)) hsize
  refine ⟨?_, ⟨uxQueueLength - 1, Nat.sub_lt hlength Nat.one_pos, ?_⟩, ⟨0, hlength, ?_⟩⟩
  · simp only [initial_pcTail, initial_pcHead, initial_uxLength, initial_uxItemSize,
      Nat.mod_eq_of_lt hsize]
  · simp only [initial_pcReadFrom, initial_pcHead, initial_uxItemSize, if_pos hpos,
      Nat.mod_eq_of_lt hlast]
  · rw [Nat.zero_mul, Nat.add_zero]
    rfl

theorem InSlots.copyToBack (h : q.InSlots) (hpos : 0 < q.uxItemSize) (item : Item) :
    (q.copyToBack item).InSlots := by
  obtain ⟨i, hi, hwrite⟩ := h.write
  refine ⟨h.tail, h.read, next q.uxLength i, ?_, ?_⟩
  · exact next_lt hi
  · simp only [copyToBack_pcWriteTo, copyToBack_pcHead, copyToBack_uxItemSize, hwrite, h.tail]
    exact pointer_next hpos hi

theorem InSlots.copyToFront (h : q.InSlots) (hpos : 0 < q.uxItemSize) (item : Item) :
    (q.copyToFront item).InSlots := by
  obtain ⟨i, hi, hread⟩ := h.read
  refine ⟨h.tail, ⟨prev q.uxLength i, prev_lt hi, ?_⟩, h.write⟩
  simp only [copyToFront_pcReadFrom, copyToFront_pcHead, copyToFront_uxItemSize, hread, h.tail]
  exact pointer_prev hpos hi

theorem InSlots.advanceRead (h : q.InSlots) (hpos : 0 < q.uxItemSize) : q.advanceRead.InSlots := by
  obtain ⟨i, hi, hread⟩ := h.read
  refine ⟨h.tail, ⟨next q.uxLength i, next_lt hi, ?_⟩, h.write⟩
  simp only [advanceRead_pcReadFrom, advanceRead_pcHead, advanceRead_uxItemSize, hread, h.tail]
  exact pointer_next hpos hi

theorem CopyStep.fields (hstep : CopyStep q q') :
    q'.pcHead = q.pcHead ∧ q'.uxLength = q.uxLength ∧ q'.uxItemSize = q.uxItemSize := by
  obtain ⟨pvItem, xToFront, hcopy⟩ | ⟨pvBuffer, item, hcopy⟩ := hstep
  · unfold prvCopyIn at hcopy
    split at hcopy
    · cases hcopy
      exact ⟨rfl, rfl, rfl⟩
    · split at hcopy
      · split at hcopy
        · obtain ⟨-, heq⟩ := Option.ite_none_right_eq_some.mp hcopy
          cases heq
          exact ⟨rfl, rfl, rfl⟩
        · obtain ⟨-, heq⟩ := Option.ite_none_right_eq_some.mp hcopy
          cases heq
          exact ⟨rfl, rfl, rfl⟩
      · cases hcopy
        exact ⟨rfl, rfl, rfl⟩
  · unfold prvCopyOut at hcopy
    split at hcopy
    · obtain ⟨-, heq⟩ := Option.ite_none_right_eq_some.mp hcopy
      cases heq
      exact ⟨rfl, rfl, rfl⟩
    · cases hcopy
      exact ⟨rfl, rfl, rfl⟩

theorem CopyStep.inSlots (hstep : CopyStep q q') (h : q.InSlots) (hpos : 0 < q.uxItemSize) :
    q'.InSlots := by
  obtain ⟨pvItem, xToFront, hcopy⟩ | ⟨pvBuffer, item, hcopy⟩ := hstep
  · cases pvItem with
    | none =>
      cases hcopy
      exact ⟨h.tail, h.read, h.write⟩
    | some item =>
      simp only [prvCopyIn, if_pos hpos] at hcopy
      split at hcopy
      · obtain ⟨-, heq⟩ := Option.ite_none_right_eq_some.mp hcopy
        cases heq
        have hslots := h.copyToFront hpos item
        exact ⟨hslots.tail, hslots.read, hslots.write⟩
      · obtain ⟨-, heq⟩ := Option.ite_none_right_eq_some.mp hcopy
        cases heq
        have hslots := h.copyToBack hpos item
        exact ⟨hslots.tail, hslots.read, hslots.write⟩
  · simp only [prvCopyOut, if_pos hpos] at hcopy
    obtain ⟨-, heq⟩ := Option.ite_none_right_eq_some.mp hcopy
    cases heq
    have hslots := h.advanceRead hpos
    exact ⟨hslots.tail, hslots.read, hslots.write⟩

theorem inSlots_of_copies (hcopies : Relation.ReflTransGen CopyStep q q')
    (h : 0 < q.uxItemSize → q.InSlots) :
    (q'.pcHead = q.pcHead ∧ q'.uxLength = q.uxLength ∧ q'.uxItemSize = q.uxItemSize) ∧
      (0 < q'.uxItemSize → q'.InSlots) := by
  induction hcopies with
  | refl => exact ⟨⟨rfl, rfl, rfl⟩, h⟩
  | tail _ hstep ih =>
    obtain ⟨⟨hhead, hlength, hsize⟩, hslots⟩ := ih
    obtain ⟨hhead', hlength', hsize'⟩ := hstep.fields
    refine ⟨⟨hhead'.trans hhead, hlength'.trans hlength, hsize'.trans hsize⟩, ?_⟩
    intro hpos
    rw [hsize'] at hpos
    exact hstep.inSlots (hslots hpos) hpos

/-- A copy from or to a slot stays within the storage. -/
theorem InSlots.copyPlaces (h : q.InSlots) (hpos : 0 < q.uxItemSize) :
    ∀ p ∈ q.copyPlaces, q.pcHead ≤ p ∧ p + q.uxItemSize ≤ q.pcHead + q.uxLength * q.uxItemSize := by
  have hslot : ∀ p, (∃ i, i < q.uxLength ∧ p = q.pcHead + i * q.uxItemSize) →
      q.pcHead ≤ p ∧ p + q.uxItemSize ≤ q.pcHead + q.uxLength * q.uxItemSize := by
    rintro p ⟨i, hi, rfl⟩
    exact ⟨Nat.le_add_right _ _, slot_in_storage hi _⟩
  intro p hp
  simp only [Queue.copyPlaces, List.mem_cons, List.not_mem_nil, or_false] at hp
  rcases hp with rfl | rfl | rfl
  · exact hslot _ h.write
  · exact hslot _ h.read
  · exact hslot _ (h.advanceRead hpos).read

end Queue

/-! ### Sizes that do not wrap -/

/-- The block at `pv` has room for the record and the messages, and no sequence of
    copies leaves it. -/
def FitsBlock (h : Heap) (q : Queue) : Prop :=
  let pv := q.pcHead - sizeofQueue
  sizeofQueue + q.uxLength * q.uxItemSize ≤ blockBytes h pv ∧
    ∀ q', Relation.ReflTransGen Queue.CopyStep q q' → 0 < q'.uxItemSize →
      ∀ p ∈ q'.copyPlaces, pv ≤ p ∧ p + q'.uxItemSize ≤ pv + blockBytes h pv

theorem fitsBlock_initial {h : Heap} {pxQueue uxQueueLength uxItemSize : Nat}
    (hlength : 0 < uxQueueLength) (hsum : sizeofQueue + uxQueueLength * uxItemSize < 2 ^ 64)
    (hbytes : sizeofQueue + uxQueueLength * uxItemSize ≤ blockBytes h pxQueue) :
    FitsBlock h (Queue.initial pxQueue uxQueueLength uxItemSize) := by
  have hpv : (Queue.initial pxQueue uxQueueLength uxItemSize).pcHead - sizeofQueue = pxQueue :=
    Nat.add_sub_cancel ..
  refine ⟨?_, ?_⟩
  · rw [hpv]
    exact hbytes
  · rw [hpv]
    intro q' hcopies hpos' p hp
    obtain ⟨⟨hhead, hlength', hsize'⟩, hslots⟩ := Queue.inSlots_of_copies hcopies
      (Queue.initial_inSlots hlength (Nat.lt_of_le_of_lt (Nat.le_add_left _ _) hsum))
    obtain ⟨hlow, hhigh⟩ := (hslots hpos').copyPlaces hpos' p hp
    rw [hhead, Queue.initial_pcHead] at hlow hhigh
    rw [hlength', hsize', Queue.initial_uxLength, Queue.initial_uxItemSize] at hhigh
    rw [hsize', Queue.initial_uxItemSize]
    omega

/-- **Allocation sizes.**  A queue that `xQueueCreate` returns has a block that holds
    the record and all messages, and that no copy leaves, exactly when the size of
    the two together is below 2⁶⁴; and `calloc(a, b)` returns `a * b` bytes exactly
    when that product is. -/
theorem allocation_sizes_iff (pool : Pool) {s : HeapState} (hreach : (allocator pool).Reach s) :
    (∀ (xQueue : QueueId) (uxQueueLength uxItemSize : UInt64) (σ σ' : Sched) (q : Queue) (h' : Heap),
      Storage.xQueueCreate pool xQueue uxQueueLength uxItemSize s.heap σ = some (some q, h', σ') →
      (FitsBlock h' q ↔ sizeofQueue + uxQueueLength.toNat * uxItemSize.toNat < 2 ^ 64)) ∧
    (∀ (a b : UInt64) (p : Nat) (h' : Heap),
      Storage.calloc pool a b s.heap = some (p, h') → p ≠ 0 →
      (a.toNat * b.toNat ≤ blockBytes h' p ↔ a.toNat * b.toNat < 2 ^ 64)) := by
  constructor
  · intro xQueue uxQueueLength uxItemSize σ σ' q h' hrun
    obtain ⟨pxQueue, hmalloc, hnull, hlength, rfl⟩ := Storage.xQueueCreate_cases hrun
    obtain ⟨hlow, hhigh⟩ := blockBytes_of_malloc hreach hmalloc hnull
    rw [Storage.toNat_request] at hlow
    constructor
    · rintro ⟨hbytes, -⟩
      have hpv : (Queue.initial pxQueue uxQueueLength.toNat uxItemSize.toNat).pcHead - sizeofQueue =
          pxQueue := Nat.add_sub_cancel ..
      rw [hpv] at hbytes
      exact Nat.lt_of_le_of_lt hbytes hhigh
    · intro hsum
      rw [Nat.mod_eq_of_lt hsum] at hlow
      exact fitsBlock_initial hlength hsum hlow
  · intro a b p h' hrun hp
    obtain ⟨h₁, hmalloc, hbytes⟩ := Storage.calloc_cases hrun hp
    obtain ⟨hlow, hhigh⟩ := blockBytes_of_malloc hreach hmalloc hp
    rw [UInt64.toNat_mul] at hlow
    rw [hbytes]
    constructor
    · intro hle
      exact Nat.lt_of_le_of_lt hle hhigh
    · intro hsum
      rwa [Nat.mod_eq_of_lt hsum] at hlow

/-- A queue of four messages of eight bytes, from a fresh heap. -/
theorem allocation_sizes_iff_small : ∃ q h' σ',
    Storage.xQueueCreate smallPool 0 4 8 (allocator smallPool).init.heap Sched.boot =
      some (some q, h', σ') ∧ FitsBlock h' q := by
  have hrun : ((Storage.xQueueCreate smallPool 0 4 8 (allocator smallPool).init.heap
      Sched.boot).any fun r => r.1.isSome) = true := by
    decide +kernel
  obtain ⟨⟨q, h', σ'⟩, hcreate, hq⟩ := (Option.any_eq_true _ _).mp hrun
  obtain ⟨q, rfl⟩ := Option.isSome_iff_exists.mp hq
  refine ⟨q, h', σ', hcreate, ?_⟩
  exact ((allocation_sizes_iff smallPool .init).1 0 4 8 _ _ q h' hcreate).mpr (by decide)

/-- 2⁶³ messages of two bytes are given a block of 160 bytes, and the first send to the
    front goes far beyond it; `calloc` of 2⁶⁰ + 1 elements of 16 bytes returns 16. -/
theorem allocation_sizes_wrap :
    (∃ q h' σ', Storage.xQueueCreate smallPool 0 9223372036854775808 2
        (allocator smallPool).init.heap Sched.boot = some (some q, h', σ') ∧
      blockBytes h' (q.pcHead - sizeofQueue) = 160 ∧ q.uxItemSize = 2 ∧
      q.pcHead + 160 < q.pcReadFrom) ∧
    ∃ p h', Storage.calloc smallPool 1152921504606846977 16 (allocator smallPool).init.heap =
      some (p, h') ∧ p ≠ 0 ∧ blockBytes h' p = 16 := by
  constructor
  · have hrun : ((Storage.xQueueCreate smallPool 0 9223372036854775808 2
        (allocator smallPool).init.heap Sched.boot).any fun r => r.1.any fun q =>
      decide (blockBytes r.2.1 (q.pcHead - sizeofQueue) = 160 ∧ q.uxItemSize = 2 ∧
        q.pcHead + 160 < q.pcReadFrom)) = true := by
      decide +kernel
    obtain ⟨⟨q, h', σ'⟩, hcreate, hq⟩ := (Option.any_eq_true _ _).mp hrun
    obtain ⟨q, rfl, hq⟩ := (Option.any_eq_true _ _).mp hq
    exact ⟨q, h', σ', hcreate, of_decide_eq_true hq⟩
  · have hrun : ((Storage.calloc smallPool 1152921504606846977 16
        (allocator smallPool).init.heap).any fun r =>
      decide (r.1 ≠ 0 ∧ blockBytes r.2 r.1 = 16)) = true := by
      decide +kernel
    obtain ⟨⟨p, h'⟩, hcalloc, hp⟩ := (Option.any_eq_true _ _).mp hrun
    exact ⟨p, h', hcalloc, of_decide_eq_true hp⟩

/-! ### Count and cursors -/

namespace Queue

/-- The slot `pcReadFrom` stands at. -/
def readSlot (q : Queue) : Nat := (q.pcReadFrom - q.pcHead) / q.uxItemSize

/-- The slot `pcWriteTo` stands at. -/
def writeSlot (q : Queue) : Nat := (q.pcWriteTo - q.pcHead) / q.uxItemSize

/-- Of a circular buffer the count says how far apart the cursors are. -/
theorem Represents.bookkeeping {q : Queue} {b : CircularBuffer Item} (h : q.Represents b) :
    q.uxMessagesWaiting ≤ q.uxLength ∧
      (0 < q.uxItemSize →
        q.writeSlot = (q.readSlot + 1 + q.uxMessagesWaiting) % q.uxLength) := by
  constructor
  · rw [← h.count, ← h.size]
    exact b.count_le
  · intro hpos
    obtain ⟨hread, hwrite⟩ := h.cursors hpos
    rw [readSlot, writeSlot, hread, hwrite, Nat.add_sub_cancel_left, Nat.add_sub_cancel_left,
      Nat.mul_div_cancel _ hpos, Nat.mul_div_cancel _ hpos, ← h.count, ← h.size]
    rfl

end Queue

/-- Sizes do not wrap, a counting semaphore starts within its maximum, and no NULL is
    sent to a queue that has an item size. -/
def Kernel.keepsBooks (k : Kernel) : Action → Bool
  | .xQueueCreate _ length size => length < 2 ^ 64 && sizeofQueue + length * size < 2 ^ 64
  | .xQueueCreateCounting _ max init => init ≤ max && max < 2 ^ 64
  | .call (.prvSend x pvItem _ _) => (k.queue x).all fun q => q.uxItemSize = 0 || pvItem.isSome
  | _ => true

def KeepsBooks (k : Kernel) (a : Action) : Prop := k.keepsBooks a = true

instance (k : Kernel) (a : Action) : Decidable (KeepsBooks k a) :=
  inferInstanceAs (Decidable (k.keepsBooks a = true))

theorem Call.usable_of_copy {c : Call} {q q' : Queue} {item : Item} (hreceive : c.isSend = false)
    (hcopy : c.copy q = some (item, q')) : c.Usable q := by
  cases c with
  | prvSend => cases hreceive
  | xQueueReceive x pvBuffer n =>
    intro hpos
    simp only [Call.copy, prvCopyOut, if_pos hpos] at hcopy
    obtain ⟨hbuffer, -⟩ := Option.ite_none_right_eq_some.mp hcopy
    exact (Bool.and_eq_true_iff.mp hbuffer).1

theorem usable_send_of_reach {k : Kernel} (h : (kernel.restrict KeepsBooks).Reach k) :
    ∀ t c q, (k.stage t).call = some c → k.queue c.xQueue = some q →
      c.isSend = true → c.Usable q := by
  refine call_invariant (U := fun c q => c.isSend = true → c.Usable q) ?_ ?_ h
  · intro k c q hbooks hvalid hq hsend
    cases c with
    | xQueueReceive => cases hsend
    | prvSend x pvItem n xToFront =>
      refine Call.usable_of_valid hq hvalid ?_
      have hq : k.queue x = some q := hq
      simpa [KeepsBooks, Kernel.keepsBooks, Call.nonNull, hq] using hbooks
  · intro c c' t q q₁ item _ hcopy husable hsend
    refine (husable hsend).congr ?_
    rw [Call.settled_uxItemSize, (Call.copy_fields hcopy).2.1]

theorem represents_of_keepsBooks {k : Kernel} (h : (kernel.restrict KeepsBooks).Reach k) :
    ∀ x q, k.queue x = some q → ∃ b, q.Represents b := by
  refine queue_invariant (P := fun _ q _ => ∃ b, q.Represents b) ?_ ?_ (fun _ _ _ _ _ hq => hq) h
  · intro k a q contents hbooks hnew
    have hused : WellUsed k a := by
      cases a with
      | xQueueCreate pxQueue length size =>
        simp only [KeepsBooks, Kernel.keepsBooks, Bool.and_eq_true, decide_eq_true_eq] at hbooks
        simp only [WellUsed, Kernel.wellUsed, Bool.and_eq_true, decide_eq_true_eq]
        omega
      | xQueueCreateCounting pxQueue max init => exact hbooks
      | xQueueCreateMutex pxQueue => rfl
      | _ => cases hnew
    obtain ⟨-, b, hrep, -⟩ := newQueue_represents hused hnew
    exact ⟨b, hrep⟩
  · rintro k t c q q₁ item hreach hstage hqueue hpossible hcopy ⟨b, hrep⟩
    have husable : c.Usable q := by
      cases hsend : c.isSend with
      | true => exact usable_send_of_reach hreach t c q (Kernel.call_of_look hstage) hqueue hsend
      | false => exact Call.usable_of_copy hsend hcopy
    obtain ⟨item', q₁', b', hcopy', hrep', -⟩ := Call.copy_represents hrep husable hpossible
    cases hcopy.symm.trans hcopy'
    exact ⟨b', hrep'.settled c t⟩

/-- **Count and cursors agree.**  In every run whose queues are created with sizes that
    do not wrap, whose counting semaphores start within their maximum, and in which
    nobody sends NULL to a queue with an item size: no queue holds more than
    `uxLength` messages, and where there is an item size the write slot is the read
    slot, one on, plus the count. -/
theorem bookkeeping_of_keepsBooks {k : Kernel} (h : (kernel.restrict KeepsBooks).Reach k)
    {x : QueueId} {q : Queue} (hq : k.queue x = some q) :
    q.uxMessagesWaiting ≤ q.uxLength ∧
      (0 < q.uxItemSize →
        q.writeSlot = (q.readSlot + 1 + q.uxMessagesWaiting) % q.uxLength) := by
  obtain ⟨b, hrep⟩ := represents_of_keepsBooks h x q hq
  exact hrep.bookkeeping

/-- A queue of two messages of two bytes: one sent to the back, one to the front, one
    received. -/
theorem bookkeeping_of_keepsBooks_two : ∃ k q, (kernel.restrict KeepsBooks).Reach k ∧
    k.queue 0 = some q ∧ q.uxMessagesWaiting = 1 ∧
    q.writeSlot = (q.readSlot + 1 + 1) % 2 := by
  obtain ⟨k, hreach, hk⟩ := (kernel.restrict KeepsBooks).exists_reach twoSendsSchedule
    (fun k => (k.queue 0).any fun q : Queue =>
      decide (q.uxMessagesWaiting = 1 ∧ q.uxLength = 2 ∧ 0 < q.uxItemSize)) (by decide +kernel)
  obtain ⟨q, hq, hfields⟩ := (Option.any_eq_true _ _).mp hk
  obtain ⟨hcount, hlength, hpos⟩ := of_decide_eq_true hfields
  have hcursors := (bookkeeping_of_keepsBooks hreach hq).2 hpos
  rw [hcount, hlength] at hcursors
  exact ⟨k, q, hreach, hq, hcount, hcursors⟩

/-- A counting semaphore created with five tokens of at most one; and a queue of two
    messages of four bytes to which NULL is sent: there is a message, and the write
    slot is where it was. -/
theorem bookkeeping_lost :
    (∃ k q, kernel.Reach k ∧ k.queue 0 = some q ∧ q.uxLength = 1 ∧ q.uxMessagesWaiting = 5) ∧
    ∃ k q, kernel.Reach k ∧ k.queue 0 = some q ∧ q.uxLength = 2 ∧ q.uxItemSize = 4 ∧
      q.writeSlot = 0 ∧ (q.readSlot + 1 + q.uxMessagesWaiting) % q.uxLength = 1 := by
  constructor
  · obtain ⟨k, hreach, hk⟩ := kernel.exists_reach [.xQueueCreateCounting (some 0) 1 5]
      (fun k => (k.queue 0).any fun q : Queue =>
        decide (q.uxLength = 1 ∧ q.uxMessagesWaiting = 5)) (by decide +kernel)
    obtain ⟨q, hq, hfields⟩ := (Option.any_eq_true _ _).mp hk
    exact ⟨k, q, hreach, hq, of_decide_eq_true hfields⟩
  · obtain ⟨k, hreach, hk⟩ := kernel.exists_reach
      [.xTaskCreate ⟨true, true⟩ 1, .vTaskStartScheduler ⟨true, true⟩, .xQueueCreate (some 0) 2 4,
        .call (xQueueSendToBack 0 none 0), .resume, .resume]
      (fun k => (k.queue 0).any fun q : Queue =>
        decide (q.uxLength = 2 ∧ q.uxItemSize = 4 ∧ q.writeSlot = 0 ∧
          (q.readSlot + 1 + q.uxMessagesWaiting) % q.uxLength = 1)) (by decide +kernel)
    obtain ⟨q, hq, hfields⟩ := (Option.any_eq_true _ _).mp hk
    exact ⟨k, q, hreach, hq, of_decide_eq_true hfields⟩

end FlintRTOS
