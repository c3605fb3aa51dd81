import FlintRTOS.Machine
import Mathlib.Algebra.Order.Ring.Nat
import Mathlib.Logic.Function.Basic

/-!
# The heap: first fit with coalescing

`heap_4.c`.  Blocks of one static pool, each with a header `BlockLink_t` in front;
the free ones are linked by ascending address from `xStart`, outside the pool, to
`pxEnd`, a header at the top of the pool.  The top bit of a header's size marks a
block as allocated.

Memory is seen as headers: `mem a` is what is read through a `BlockLink_t *` that
points to `a`, and the null pointer is address 0.  The two loops are bounded by a
fuel and fail when it does not suffice, which never happens in a state that can be
reached.
-/

namespace FlintRTOS

namespace Heap4

/-- `portBYTE_ALIGNMENT`, the same on both ports. -/
abbrev heapByteAlignment : Nat := 16

/-- The size of a header, two words of eight bytes. -/
abbrev xHeapStructSize : Nat := 16

/-- The top bit of a `size_t`. -/
abbrev heapAllocBit : Nat := 2 ^ 63

structure BlockLink where
  pxNextFreeBlock : Nat
  xBlockSize : Nat
deriving DecidableEq, Repr

/-- `x & ~heapALIGN_MASK`. -/
def alignDown (x : Nat) : Nat := x - x % heapByteAlignment

/-- The start of the usable heap, for a pool at `uxAddress`. -/
def alignStart (uxAddress : Nat) : Nat :=
  if uxAddress % heapByteAlignment ≠ 0 then alignDown (uxAddress + (heapByteAlignment - 1))
  else uxAddress

/-- Where the linker has put `ucHeap` and `xStart`.  The pool is an object of the
    address space with room for a block and for the end marker. -/
structure Pool where
  ucHeap : Nat
  configTotalHeapSize : Nat
  xStart : Nat
  not_null : 0 < ucHeap
  in_space : ucHeap + configTotalHeapSize < 2 ^ 64
  total_lt : configTotalHeapSize < 2 ^ 63
  room : alignStart ucHeap + 2 * xHeapStructSize ≤ ucHeap + configTotalHeapSize
  start_outside : xStart < ucHeap ∨ ucHeap + configTotalHeapSize ≤ xStart

/-- The headers in memory and the statics of the file. -/
structure Heap where
  mem : Nat → BlockLink
  pxEnd : Nat
  xFreeBytesRemaining : Nat
  xMinimumEverFreeBytes : Nat

/-- The heap before its first use. -/
def Heap.boot : Heap := ⟨fun _ => ⟨0, 0⟩, 0, 0, 0⟩

/-- `a->pxNextFreeBlock = p`. -/
def setNext (mem : Nat → BlockLink) (a p : Nat) : Nat → BlockLink :=
  Function.update mem a { mem a with pxNextFreeBlock := p }

/-- `a->xBlockSize = n`. -/
def setSize (mem : Nat → BlockLink) (a n : Nat) : Nat → BlockLink :=
  Function.update mem a { mem a with xBlockSize := n }

/-- Addition of `size_t`. -/
def sizeAdd (a b : Nat) : Nat := (a + b) % 2 ^ 64

/-- Subtraction of `size_t`. -/
def sizeSub (a b : Nat) : Nat := (a + 2 ^ 64 - b) % 2 ^ 64

def prvBlockIsAllocated (b : BlockLink) : Bool := decide (b.xBlockSize &&& heapAllocBit ≠ 0)

/-! ### Inserting a free block -/

/-- The loop that finds the block to insert after. -/
def insertionPoint (mem : Nat → BlockLink) (pxBlockToInsert : Nat) : Nat → Nat → Option Nat
  | 0, _ => none
  | fuel + 1, pxIterator =>
      if (mem pxIterator).pxNextFreeBlock < pxBlockToInsert then
        insertionPoint mem pxBlockToInsert fuel (mem pxIterator).pxNextFreeBlock
      else some pxIterator

/-- Coalesce with the preceding block if contiguous; also the block that is then
    the one to insert. -/
def coalescePrevious (mem : Nat → BlockLink) (pxIterator pxBlockToInsert : Nat) :
    (Nat → BlockLink) × Nat :=
  if pxIterator + (mem pxIterator).xBlockSize = pxBlockToInsert then
    (setSize mem pxIterator
      (sizeAdd (mem pxIterator).xBlockSize (mem pxBlockToInsert).xBlockSize), pxIterator)
  else (mem, pxBlockToInsert)

/-- Coalesce with the following block if contiguous, but never with `pxEnd`. -/
def coalesceNext (pxEnd : Nat) (mem : Nat → BlockLink) (pxIterator pxBlockToInsert : Nat) :
    Nat → BlockLink :=
  let next := (mem pxIterator).pxNextFreeBlock
  if pxBlockToInsert + (mem pxBlockToInsert).xBlockSize = next then
    if next ≠ pxEnd then
      setNext (setSize mem pxBlockToInsert
        (sizeAdd (mem pxBlockToInsert).xBlockSize (mem next).xBlockSize))
        pxBlockToInsert (mem next).pxNextFreeBlock
    else setNext mem pxBlockToInsert pxEnd
  else setNext mem pxBlockToInsert next

/-- Link the block in, unless it was joined to the one before. -/
def linkBlock (mem : Nat → BlockLink) (pxIterator pxBlockToInsert : Nat) : Nat → BlockLink :=
  if pxIterator ≠ pxBlockToInsert then setNext mem pxIterator pxBlockToInsert else mem

/-- No list of blocks in the pool is longer. -/
def Pool.fuel (pool : Pool) : Nat := pool.configTotalHeapSize + 1

def prvInsertBlockIntoFreeList (pool : Pool) (pxBlockToInsert : Nat) (h : Heap) : Option Heap := do
  let pxIterator ← insertionPoint h.mem pxBlockToInsert pool.fuel pool.xStart
  let (mem, block) := coalescePrevious h.mem pxIterator pxBlockToInsert
  let mem := coalesceNext h.pxEnd mem pxIterator block
  return { h with mem := linkBlock mem pxIterator block }

/-! ### Initialisation -/

/-- The address of the end marker. -/
def Pool.endMarker (pool : Pool) : Nat :=
  let pucAlignedHeap := alignStart pool.ucHeap
  let xTotalHeapSize := pool.configTotalHeapSize - (pucAlignedHeap - pool.ucHeap)
  alignDown (pucAlignedHeap + xTotalHeapSize - xHeapStructSize)

/-- The bounds of the pool exclude a wrap around here. -/
def vPortInitialiseBlocks (pool : Pool) (h : Heap) : Heap :=
  let pucAlignedHeap := alignStart pool.ucHeap
  let mem := Function.update h.mem pool.xStart ⟨pucAlignedHeap, 0⟩
  let pxEnd := pool.endMarker
  let mem := Function.update mem pxEnd ⟨0, 0⟩
  let xBlockSize := pxEnd - pucAlignedHeap
  let mem := Function.update mem pucAlignedHeap ⟨pxEnd, xBlockSize⟩
  { mem := mem
    pxEnd := pxEnd
    xFreeBytesRemaining := xBlockSize
    xMinimumEverFreeBytes := xBlockSize }

/-- Initialise on first use. -/
def ensureInitialised (pool : Pool) (h : Heap) : Heap :=
  if h.pxEnd = 0 then vPortInitialiseBlocks pool h else h

/-! ### Allocating -/

/-- Account for the header and round up to alignment. -/
def wantedBlockSize (xWantedSize : Nat) : Nat :=
  let xWantedSize := sizeAdd xWantedSize xHeapStructSize
  if xWantedSize % heapByteAlignment ≠ 0 then
    sizeAdd xWantedSize (heapByteAlignment - xWantedSize % heapByteAlignment)
  else xWantedSize

/-- The first-fit loop: the block found and the one before it. -/
def firstFit (mem : Nat → BlockLink) (xWantedSize : Nat) : Nat → Nat → Nat → Option (Nat × Nat)
  | 0, _, _ => none
  | fuel + 1, pxPreviousBlock, pxBlock =>
      if (mem pxBlock).xBlockSize < xWantedSize ∧ (mem pxBlock).pxNextFreeBlock ≠ 0 then
        firstFit mem xWantedSize fuel pxBlock (mem pxBlock).pxNextFreeBlock
      else some (pxPreviousBlock, pxBlock)

/-- Split if the remainder is big enough to be a usable block. -/
def splitBlock (pool : Pool) (xWantedSize pxBlock : Nat) (h : Heap) : Option Heap :=
  let rest := sizeSub (h.mem pxBlock).xBlockSize xWantedSize
  if rest > xHeapStructSize * 2 then
    let pxNewBlockLink := pxBlock + xWantedSize
    let mem := setSize (setSize h.mem pxNewBlockLink rest) pxBlock xWantedSize
    prvInsertBlockIntoFreeList pool pxNewBlockLink { h with mem := mem }
  else some h

/-- Charge the block to the counters and mark it allocated. -/
def markAllocated (pxBlock : Nat) (h : Heap) : Heap :=
  let free := sizeSub h.xFreeBytesRemaining (h.mem pxBlock).xBlockSize
  { h with
    mem := Function.update h.mem pxBlock ⟨0, (h.mem pxBlock).xBlockSize ||| heapAllocBit⟩
    xFreeBytesRemaining := free
    xMinimumEverFreeBytes :=
      if free < h.xMinimumEverFreeBytes then free else h.xMinimumEverFreeBytes }

/-- Take the block found out of the free list, split it and mark it. -/
def allocateBlock (pool : Pool) (xWantedSize pxPreviousBlock pxBlock : Nat) (h : Heap) :
    Option (Nat × Heap) := do
  let pvReturn := (h.mem pxPreviousBlock).pxNextFreeBlock + xHeapStructSize
  let mem := setNext h.mem pxPreviousBlock (h.mem pxBlock).pxNextFreeBlock
  let h ← splitBlock pool xWantedSize pxBlock { h with mem := mem }
  return (pvReturn, markAllocated pxBlock h)

/-- The search and what follows it, for a request that passed the checks. -/
def allocateWanted (pool : Pool) (xWantedSize : Nat) (h : Heap) : Option (Nat × Heap) := do
  let (pxPreviousBlock, pxBlock) ← firstFit h.mem xWantedSize pool.fuel pool.xStart
    (h.mem pool.xStart).pxNextFreeBlock
  if pxBlock ≠ h.pxEnd then allocateBlock pool xWantedSize pxPreviousBlock pxBlock h
  else return (0, h)

/-- The pointer returned, 0 for `NULL`. -/
def pvPortMalloc (pool : Pool) (xWantedSize : UInt64) (h : Heap) : Option (Nat × Heap) :=
  let h := ensureInitialised pool h
  if xWantedSize.toNat = 0 ∨ xWantedSize.toNat &&& heapAllocBit ≠ 0 then some (0, h)
  else if wantedBlockSize xWantedSize.toNat > h.xFreeBytesRemaining then some (0, h)
  else allocateWanted pool (wantedBlockSize xWantedSize.toNat) h

/-! ### Freeing -/

/-- Clear the mark of an allocated block and insert it. -/
def freeBlock (pool : Pool) (pxLink : Nat) (h : Heap) : Option Heap :=
  let size := (h.mem pxLink).xBlockSize &&& (2 ^ 64 - 1 - heapAllocBit)
  prvInsertBlockIntoFreeList pool pxLink
    { h with
      mem := Function.update h.mem pxLink ⟨0, size⟩
      xFreeBytesRemaining := sizeAdd h.xFreeBytesRemaining size }

def vPortFree (pool : Pool) (pv : Nat) (h : Heap) : Option Heap :=
  if pv = 0 then some h
  else
    let pxLink := pv - xHeapStructSize
    if !prvBlockIsAllocated (h.mem pxLink) then some h
    else freeBlock pool pxLink h

/-! ### The counters -/

def xPortGetFreeHeapSize (pool : Pool) (h : Heap) : Nat × Heap :=
  let h := ensureInitialised pool h
  (h.xFreeBytesRemaining, h)

def xPortGetMinimumEverFreeHeapSize (pool : Pool) (h : Heap) : Nat × Heap :=
  let h := ensureInitialised pool h
  (h.xMinimumEverFreeBytes, h)

/-! ### Clients -/

/-- The heap with what its clients know of it, and the values that
    `xFreeBytesRemaining` has had since the heap was initialised, latest first. -/
structure HeapState where
  heap : Heap
  /-- Pointer and requested size of what has been allocated and not freed. -/
  live : List (Nat × Nat)
  history : List Nat

/-- The value of `xFreeBytesRemaining` is put on record. -/
def record (h : Heap) (history : List Nat) : List Nat :=
  if h.pxEnd = 0 then history else h.xFreeBytesRemaining :: history

/-- What a client may do; `write` is a store to memory it has been given. -/
inductive HeapOp where
  | malloc (xWantedSize : UInt64)
  | free (pv : Nat)
  | getFreeHeapSize
  | getMinimumEverFreeHeapSize
  | write (a : Nat) (link : BlockLink)

/-- Clients free `NULL` or a live pointer, and write within what is theirs. -/
def HeapOp.Admitted (s : HeapState) : HeapOp → Prop
  | .free pv => pv = 0 ∨ ∃ x ∈ s.live, x.1 = pv
  | .write a _ => ∃ x ∈ s.live, x.1 ≤ a ∧ a < x.1 + x.2
  | _ => True

instance (s : HeapState) : (op : HeapOp) → Decidable (op.Admitted s)
  | .malloc _ => inferInstanceAs (Decidable True)
  | .free pv => inferInstanceAs (Decidable (pv = 0 ∨ ∃ x ∈ s.live, x.1 = pv))
  | .getFreeHeapSize => inferInstanceAs (Decidable True)
  | .getMinimumEverFreeHeapSize => inferInstanceAs (Decidable True)
  | .write a _ => inferInstanceAs (Decidable (∃ x ∈ s.live, x.1 ≤ a ∧ a < x.1 + x.2))

/-- A heap that was initialised on the way, if it was not before. -/
def HeapState.after (pool : Pool) (s : HeapState) (h : Heap) : HeapState :=
  { s with heap := h, history := record h (record (ensureInitialised pool s.heap) s.history) }

def HeapState.malloc (pool : Pool) (s : HeapState) (xWantedSize : UInt64) : Option HeapState := do
  let (pv, h) ← pvPortMalloc pool xWantedSize s.heap
  let s := s.after pool h
  return { s with live := if pv = 0 then s.live else (pv, xWantedSize.toNat) :: s.live }

def HeapState.free (pool : Pool) (s : HeapState) (pv : Nat) : Option HeapState := do
  let h ← vPortFree pool pv s.heap
  return { heap := h
           live := s.live.filter fun x => x.1 ≠ pv
           history := record h s.history }

def HeapOp.exec (pool : Pool) (s : HeapState) : HeapOp → Option HeapState
  | .malloc xWantedSize => s.malloc pool xWantedSize
  | .free pv => s.free pool pv
  | .getFreeHeapSize => some (s.after pool (xPortGetFreeHeapSize pool s.heap).2)
  | .getMinimumEverFreeHeapSize =>
      some (s.after pool (xPortGetMinimumEverFreeHeapSize pool s.heap).2)
  | .write a link => some { s with heap := { s.heap with mem := Function.update s.heap.mem a link } }

/-- The allocator under any clients that keep to `Admitted`. -/
def allocator (pool : Pool) : Machine HeapState HeapOp where
  init := ⟨Heap.boot, [], []⟩
  guard s op := op.Admitted s
  exec s op := op.exec pool s

instance (pool : Pool) (s : HeapState) (op : HeapOp) :
    Decidable ((allocator pool).guard s op) :=
  inferInstanceAs (Decidable (op.Admitted s))

end Heap4

end FlintRTOS
