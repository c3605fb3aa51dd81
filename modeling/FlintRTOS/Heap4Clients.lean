import FlintRTOS.Heap4Invariant

/-!
# The heap under any clients

Runs of the allocator: whatever its clients allocate, free and write, in any order,
every call returns and the heap stays a tiling of its pool whose allocated tiles
are the live allocations.  When everything has been freed there is one free block
again, the one the heap began with.
-/

namespace FlintRTOS

namespace Heap4

open Tiling

variable {pool : Pool}

/-! ### The first block -/

/-- A heap just initialised is one free tile. -/
theorem tiled_initialised (pool : Pool) (h : Heap) :
    Tiled pool (vPortInitialiseBlocks pool h) [⟨pool.endMarker - pool.start, none⟩] := by
  obtain ⟨hroom, haligned, -⟩ := pool.endMarker_spec
  have hstart := pool.start_spec.2
  have hxStart : pool.xStart ≠ pool.start := Pool.xStart_ne (Nat.le_refl _) (by omega)
  have hxStart' : pool.xStart ≠ pool.endMarker := Pool.xStart_ne (by omega) (Nat.le_refl _)
  have hends : pool.endMarker ≠ pool.start := by omega
  have hmem : (vPortInitialiseBlocks pool h).mem =
      Function.update (Function.update (Function.update h.mem pool.xStart ⟨pool.start, 0⟩)
        pool.endMarker ⟨0, 0⟩) pool.start ⟨pool.endMarker, pool.endMarker - pool.start⟩ := rfl
  constructor
  · rfl
  · simp only [extent_cons, extent_nil]
    omega
  · simp only [List.mem_singleton, forall_eq]
    omega
  · exact List.isChain_singleton _
  · rw [hmem]
    constructor
    · simp [freeBlocks, addresses, links, hxStart, hxStart']
    · simp [freeBlocks]
    · simp [hxStart, hxStart']
    · simp [hends]
  · intro x hx
    cases hx
  · intro x hx
    cases hx
  · simp [vPortInitialiseBlocks, freeBlocks, Pool.start]

/-! ### The invariant of a run -/

/-- The pointer and the requested size of an allocated block. -/
def allocation (x : Nat × Nat × Nat) : Nat × Nat := (x.1 + xHeapStructSize, x.2.2)

/-- The tiles account for what the clients hold, and the minimum for what was free. -/
structure Accounted (pool : Pool) (s : HeapState) (tiles : List (Tile Nat)) : Prop where
  tiled : Tiled pool s.heap tiles
  live : s.live.Perm ((heldBlocks pool.start tiles).map allocation)
  latest : s.heap.xFreeBytesRemaining ∈ s.history
  least : IsLeast {n | n ∈ s.history} s.heap.xMinimumEverFreeBytes

/-- Either nothing has been done with the heap or the tiles account for it. -/
def HeapInv (pool : Pool) (s : HeapState) : Prop :=
  (s.heap = Heap.boot ∧ s.live = [] ∧ s.history = []) ∨ ∃ tiles, Accounted pool s tiles

variable {h : Heap} {tiles : List (Tile Nat)} {s : HeapState} {x : Nat × Nat}

theorem Tiled.pxEnd_ne_zero (htiled : Tiled pool h tiles) : h.pxEnd ≠ 0 := by
  have hmarker := pool.endMarker_spec
  have hend := htiled.pxEnd
  omega

theorem Tiled.record_eq (htiled : Tiled pool h tiles) (history : List Nat) :
    record h history = h.xFreeBytesRemaining :: history :=
  if_neg htiled.pxEnd_ne_zero

/-- A value is put on record and the minimum follows it. -/
theorem isLeast_cons {history : List Nat} {n k : Nat} (h : IsLeast {x | x ∈ history} n) :
    IsLeast {x | x ∈ k :: history} (min n k) := by
  obtain ⟨hmem, hlower⟩ := h
  constructor
  · rcases min_choice n k with hmin | hmin
    · rw [hmin]
      exact List.mem_cons_of_mem _ hmem
    · rw [hmin]
      exact List.mem_cons_self ..
  · intro x hx
    rcases List.mem_cons.mp hx with rfl | hx
    · exact min_le_right ..
    · exact (min_le_left ..).trans (hlower hx)

/-- The heap a call finds once it has been initialised. -/
def HeapState.opened (pool : Pool) (s : HeapState) : HeapState :=
  { s with
    heap := ensureInitialised pool s.heap
    history := record (ensureInitialised pool s.heap) s.history }

/-- Recording the value that is there changes nothing. -/
theorem Accounted.again (h : Accounted pool s tiles) :
    Accounted pool { s with history := record s.heap s.history } tiles := by
  refine ⟨h.tiled, h.live, ?_, ?_⟩
  · show _ ∈ record s.heap s.history
    rw [h.tiled.record_eq]
    exact List.mem_cons_self ..
  · show IsLeast {n | n ∈ record s.heap s.history} _
    rw [h.tiled.record_eq]
    have hmin : min s.heap.xMinimumEverFreeBytes s.heap.xFreeBytesRemaining =
        s.heap.xMinimumEverFreeBytes := min_eq_left (h.least.2 h.latest)
    exact hmin ▸ isLeast_cons h.least

theorem HeapInv.opened (h : HeapInv pool s) : ∃ tiles, Accounted pool (s.opened pool) tiles := by
  obtain ⟨hheap, hlive, hhistory⟩ | ⟨tiles, hacc⟩ := h
  · have htiled : Tiled pool (ensureInitialised pool s.heap)
        [⟨pool.endMarker - pool.start, none⟩] := by
      rw [hheap]
      exact tiled_initialised pool Heap.boot
    have hminimum : (ensureInitialised pool s.heap).xMinimumEverFreeBytes =
        (ensureInitialised pool s.heap).xFreeBytesRemaining := by
      rw [hheap]
      rfl
    have hrecord : (s.opened pool).history =
        [(ensureInitialised pool s.heap).xFreeBytesRemaining] := by
      show record _ s.history = _
      rw [htiled.record_eq, hhistory]
    refine ⟨_, htiled, ?_, ?_, ?_⟩
    · show s.live.Perm _
      rw [hlive]
      exact List.Perm.nil
    · rw [hrecord]
      exact List.mem_singleton_self _
    · rw [hrecord]
      show IsLeast _ (ensureInitialised pool s.heap).xMinimumEverFreeBytes
      rw [hminimum]
      simp [IsLeast, lowerBounds]
  · refine ⟨tiles, ?_⟩
    have hopened : s.opened pool = { s with history := record s.heap s.history } := by
      unfold HeapState.opened
      rw [hacc.tiled.ensureInitialised_eq]
    rw [hopened]
    exact hacc.again

/-! ### What each call keeps -/

/-- An allocation is one more live block, and nothing else changes hands. -/
theorem MallocEffect.accounted {r pv : Nat} {h' : Heap}
    (heffect : MallocEffect pool s.heap tiles r pv h') (hacc : Accounted pool s tiles) :
    ∃ tiles', Accounted pool
      ⟨h', if pv = 0 then s.live else (pv, r) :: s.live, record h' s.history⟩ tiles' := by
  cases heffect with
  | refused hwhy =>
    exact ⟨tiles, hacc.again⟩
  | @allocated pre post m h' htiles hsmall hfits htiled hminimum =>
    subst htiles
    have hpv : pool.start + extent pre + xHeapStructSize ≠ 0 := Nat.succ_ne_zero _
    have hextent : extent (carve (xHeapStructSize * 2) (wantedBlockSize r) m r) = m :=
      extent_carve hfits
    rw [if_neg hpv]
    refine ⟨_, htiled, ?_, ?_, ?_⟩
    · have hlive := hacc.live
      rw [heldBlocks_append, heldBlocks_cons_none, List.map_append] at hlive
      rw [heldBlocks_append, heldBlocks_append, heldBlocks_carve, hextent, List.map_append,
        List.map_append]
      exact (hlive.cons _).trans List.perm_middle.symm
    · rw [htiled.record_eq]
      exact List.mem_cons_self ..
    · rw [htiled.record_eq]
      show IsLeast _ h'.xMinimumEverFreeBytes
      rw [hminimum]
      exact isLeast_cons hacc.least

theorem HeapState.malloc_spec (h : HeapInv pool s) (xWantedSize : UInt64) :
    ∃ s' tiles, s.malloc pool xWantedSize = some s' ∧ Accounted pool s' tiles := by
  obtain ⟨tiles, hacc⟩ := h.opened
  have hidem : ensureInitialised pool (ensureInitialised pool s.heap) =
      ensureInitialised pool s.heap := hacc.tiled.ensureInitialised_eq
  obtain ⟨pv, h', hrun, heffect⟩ := pvPortMalloc_spec xWantedSize hacc.tiled
  have hrun' : pvPortMalloc pool xWantedSize s.heap = some (pv, h') := by
    rw [← hrun]
    show _ = pvPortMalloc pool xWantedSize (ensureInitialised pool s.heap)
    unfold pvPortMalloc
    rw [hidem]
  obtain ⟨tiles', hacc'⟩ := heffect.accounted hacc
  refine ⟨_, tiles', ?_, hacc'⟩
  rw [HeapState.malloc, hrun']
  rfl

theorem Accounted.exists_tile (hacc : Accounted pool s tiles) (hx : x ∈ s.live) :
    ∃ pre post n, tiles = pre ++ ⟨n, some x.2⟩ :: post ∧
      x.1 = pool.start + extent pre + xHeapStructSize := by
  obtain ⟨⟨a, n, r⟩, hheld, rfl⟩ := List.mem_map.mp (hacc.live.mem_iff.mp hx)
  obtain ⟨pre, post, htiles, rfl⟩ := exists_tile_of_heldBlocks hheld
  exact ⟨pre, post, n, htiles, rfl⟩

/-- Freeing a live pointer ends that allocation and no other.  The blocks that stay
    allocated do not reach the header of the one freed, which loses its mark as no
    other header gains one. -/
theorem Accounted.free (hacc : Accounted pool s tiles) (hx : x ∈ s.live) :
    ∃ s' tiles', s.free pool x.1 = some s' ∧ Accounted pool s' tiles' ∧
      (∀ y ∈ heldBlocks pool.start tiles', y ∈ heldBlocks pool.start tiles ∧
        (x.1 - xHeapStructSize < y.1 ∨ y.1 + y.2.1 ≤ x.1 - xHeapStructSize)) ∧
      ∀ a, a = x.1 - xHeapStructSize ∨ (s.heap.mem a).xBlockSize < 2 ^ 63 →
        (s'.heap.mem a).xBlockSize < 2 ^ 63 := by
  obtain ⟨pre, post, n, rfl, hpv⟩ := hacc.exists_tile hx
  have hpos := fun t ht => (hacc.tiled.sizes t ht).1
  obtain ⟨h', hfree, htiled, hremaining, hminimum, hclear⟩ := vPortFree_spec hacc.tiled
  have hheader : x.1 - xHeapStructSize = pool.start + extent pre := by
    rw [hpv, Nat.add_sub_cancel]
  refine ⟨⟨h', s.live.filter fun y => y.1 ≠ x.1, record h' s.history⟩, _, ?_,
    ⟨htiled, ?_, ?_, ?_⟩, ?_, by rwa [hheader]⟩
  · rw [HeapState.free, hpv, hfree]
    rfl
  · have hlive := hacc.live.filter fun y => decide (y.1 ≠ x.1)
    have hothers : ∀ y ∈ heldBlocks pool.start pre ++
        heldBlocks (pool.start + extent pre + n) post, (allocation y).1 ≠ x.1 := by
      intro y hy
      have haside := (held_aside hpos hacc.tiled.covers hy).1
      have hn := hpos ⟨n, some x.2⟩ (by simp)
      rw [hpv]
      simp only [allocation]
      simp only at hn
      omega
    refine hlive.trans (List.Perm.of_eq ?_)
    rw [heldBlocks_release, heldBlocks_append, heldBlocks_cons_some, List.map_append,
      List.map_append, List.map_cons, List.filter_append, List.filter_cons_of_neg,
      List.filter_eq_self.mpr, List.filter_eq_self.mpr]
    · intro y hy
      obtain ⟨z, hz, rfl⟩ := List.mem_map.mp hy
      exact decide_eq_true (hothers z (List.mem_append_right _ hz))
    · intro y hy
      obtain ⟨z, hz, rfl⟩ := List.mem_map.mp hy
      exact decide_eq_true (hothers z (List.mem_append_left _ hz))
    · simp [allocation, hpv]
  · rw [htiled.record_eq]
    exact List.mem_cons_self ..
  · rw [htiled.record_eq]
    show IsLeast _ h'.xMinimumEverFreeBytes
    have hmin : min s.heap.xMinimumEverFreeBytes h'.xFreeBytesRemaining =
        s.heap.xMinimumEverFreeBytes := by
      have hle := hacc.least.2 hacc.latest
      omega
    rw [hminimum, ← hmin]
    exact isLeast_cons hacc.least
  · rintro ⟨a, k, r⟩ hy
    have hn := hpos ⟨n, some x.2⟩ (by simp)
    rw [heldBlocks_release] at hy
    rw [hheader, heldBlocks_append, heldBlocks_cons_some]
    rcases List.mem_append.mp hy with hy | hy
    · exact ⟨List.mem_append_left _ hy, .inr (heldBlocks_bounds hy).2⟩
    · refine ⟨List.mem_append_right _ (List.mem_cons_of_mem _ hy), .inl ?_⟩
      have hlow := (heldBlocks_bounds hy).1
      simp only at hn ⊢
      omega

/-- What a client writes within its allocation is nobody's header. -/
theorem Accounted.write {a : Nat} (hacc : Accounted pool s tiles) (hx : x ∈ s.live) (hlow : x.1 ≤ a)
    (hhigh : a < x.1 + x.2) (link : BlockLink) :
    Accounted pool { s with heap := { s.heap with mem := Function.update s.heap.mem a link } }
      tiles := by
  obtain ⟨pre, post, n, rfl, hpv⟩ := hacc.exists_tile hx
  have htiled := hacc.tiled
  have hheld : (pool.start + extent pre, n, x.2) ∈
      heldBlocks pool.start (pre ++ ⟨n, some x.2⟩ :: post) := by
    simp [heldBlocks_append, heldBlocks_cons_some]
  have hrequest : x.2 + xHeapStructSize ≤ n := htiled.requests _ hheld
  simp only [xHeapStructSize] at hpv hrequest
  refine ⟨⟨htiled.pxEnd, htiled.covers, htiled.sizes, htiled.separated, ?_, ?_,
    htiled.requests, htiled.remaining⟩, hacc.live, hacc.latest, hacc.least⟩
  · apply freeList_within (fun t ht => (htiled.sizes t ht).1) htiled.covers htiled.freeList
    intro y hy
    apply Function.update_of_ne
    omega
  · have hothers : Headers (Function.update s.heap.mem a link) (heldBlocks pool.start pre ++
        heldBlocks (pool.start + extent pre + n) post) := by
      apply htiled.headers_aside
      intro y hy _
      apply Function.update_of_ne
      omega
    intro y hy
    rw [heldBlocks_append, heldBlocks_cons_some, List.mem_append, List.mem_cons] at hy
    rcases hy with hy | rfl | hy
    · exact hothers y (List.mem_append_left _ hy)
    · have hne : pool.start + extent pre ≠ a := by omega
      exact (congrArg _ (Function.update_of_ne hne ..)).trans (htiled.headers _ hheld)
    · exact hothers y (List.mem_append_right _ hy)

theorem HeapInv.freeNull (h : HeapInv pool s) :
    HeapInv pool ⟨s.heap, s.live.filter fun x => x.1 ≠ 0, record s.heap s.history⟩ := by
  obtain ⟨hheap, hlive, hhistory⟩ | ⟨tiles, hacc⟩ := h
  · left
    refine ⟨hheap, ?_, ?_⟩
    · simp [hlive]
    · simp [hheap, hhistory, record, Heap.boot]
  · right
    have hkept : (s.live.filter fun x => x.1 ≠ 0) = s.live := by
      rw [List.filter_eq_self]
      intro x hx
      obtain ⟨pre, post, n, -, hpv⟩ := hacc.exists_tile hx
      rw [hpv]
      exact decide_eq_true (Nat.succ_ne_zero _)
    rw [hkept]
    exact ⟨tiles, hacc.again⟩

/-- Every admitted call returns and keeps the invariant. -/
theorem HeapInv.step (h : HeapInv pool s) {op : HeapOp} (hop : op.Admitted s) :
    ∃ s', op.exec pool s = some s' ∧ HeapInv pool s' := by
  cases op with
  | malloc xWantedSize =>
    obtain ⟨s', tiles, hrun, hacc⟩ := s.malloc_spec h xWantedSize
    exact ⟨s', hrun, .inr ⟨tiles, hacc⟩⟩
  | free pv =>
    rcases hop with rfl | ⟨x, hx, rfl⟩
    · exact ⟨_, rfl, h.freeNull⟩
    · obtain ⟨-, hlive, -⟩ | ⟨tiles, hacc⟩ := h
      · rw [hlive] at hx
        cases hx
      · obtain ⟨s', tiles', hrun, hacc', -⟩ := hacc.free hx
        exact ⟨s', hrun, .inr ⟨tiles', hacc'⟩⟩
  | getFreeHeapSize =>
    obtain ⟨tiles, hacc⟩ := h.opened
    exact ⟨_, rfl, .inr ⟨tiles, hacc.again⟩⟩
  | getMinimumEverFreeHeapSize =>
    obtain ⟨tiles, hacc⟩ := h.opened
    exact ⟨_, rfl, .inr ⟨tiles, hacc.again⟩⟩
  | write a link =>
    obtain ⟨x, hx, hlow, hhigh⟩ := hop
    obtain ⟨-, hlive, -⟩ | ⟨tiles, hacc⟩ := h
    · rw [hlive] at hx
      cases hx
    · exact ⟨_, rfl, .inr ⟨tiles, hacc.write hx hlow hhigh link⟩⟩

/-! ### Runs -/

theorem heapInv_of_reach (h : (allocator pool).Reach s) : HeapInv pool s := by
  refine h.invariant (P := HeapInv pool) (.inl ⟨rfl, rfl, rfl⟩) ?_
  intro s op s' _ hinv ⟨hguard, hexec⟩
  obtain ⟨s'', hexec', hinv'⟩ := hinv.step hguard
  obtain rfl : s'' = s' := Option.some.inj (hexec'.symm.trans hexec)
  exact hinv'

theorem Tiled.aligned (htiled : Tiled pool h tiles) {x : Nat × Nat × Nat}
    (hx : x ∈ heldBlocks pool.start tiles) : x.1 % 16 = 0 := by
  obtain ⟨a, n, r⟩ := x
  obtain ⟨pre, post, rfl, rfl⟩ := exists_tile_of_heldBlocks hx
  have hstart := pool.start_spec.2
  have hpre : extent pre % 16 = 0 := extent_mod fun t ht => (htiled.sizes t (by simp [ht])).2
  simp only
  omega

/-- After any calls every further one returns.  Once the heap is initialised the
    blocks tile the range from the aligned start of the pool to `pxEnd`: the free
    ones are the free list, in ascending order and never next to each other, the
    others are the live allocations, one block each; the counters are the sum of
    the free sizes and the least value that sum has had, and each allocation is
    aligned and has the bytes that were asked for. -/
theorem heap_tiles_pool (pool : Pool) {s : HeapState} (h : (allocator pool).Reach s) :
    (allocator pool).Safe s ∧
      (s.heap.pxEnd = 0 → s.heap = Heap.boot ∧ s.live = []) ∧
      (s.heap.pxEnd ≠ 0 → ∃ tiles : List (Tile Nat),
        pool.start + extent tiles = s.heap.pxEnd ∧
        (∀ t ∈ tiles, 0 < t.size) ∧
        FreeList pool s.heap.mem s.heap.pxEnd (freeBlocks pool.start tiles) ∧
        (freeBlocks pool.start tiles).Pairwise (fun x y => x.1 + x.2 < y.1) ∧
        Headers s.heap.mem (heldBlocks pool.start tiles) ∧
        s.live.Perm ((heldBlocks pool.start tiles).map allocation) ∧
        (∀ x ∈ heldBlocks pool.start tiles, (allocation x).1 % 16 = 0 ∧
          (allocation x).1 + (allocation x).2 ≤ x.1 + x.2.1) ∧
        s.heap.xFreeBytesRemaining = blocksTotal (freeBlocks pool.start tiles) ∧
        IsLeast {n | n ∈ s.history} s.heap.xMinimumEverFreeBytes) := by
  have hinv := heapInv_of_reach h
  refine ⟨?_, ?_, ?_⟩
  · intro op hguard
    obtain ⟨s', hexec, -⟩ := hinv.step hguard
    exact ⟨s', hexec⟩
  · intro hend
    obtain ⟨hheap, hlive, -⟩ | ⟨tiles, hacc⟩ := hinv
    · exact ⟨hheap, hlive⟩
    · exact absurd hend hacc.tiled.pxEnd_ne_zero
  · intro hend
    obtain ⟨hheap, -, -⟩ | ⟨tiles, hacc⟩ := hinv
    · rw [hheap] at hend
      exact absurd rfl hend
    · have htiled := hacc.tiled
      have hpos := fun t ht => (htiled.sizes t ht).1
      refine ⟨tiles, ?_, hpos, ?_, freeBlocks_pairwise hpos htiled.separated, htiled.headers,
        hacc.live, ?_, htiled.remaining, hacc.least⟩
      · rw [htiled.pxEnd]
        exact htiled.covers
      · rw [htiled.pxEnd]
        exact htiled.freeList
      · intro x hx
        have hrequest := htiled.requests x hx
        have haligned := htiled.aligned hx
        simp only [allocation, xHeapStructSize] at hrequest ⊢
        omega

/-- A pool of 512 bytes that is not aligned. -/
def smallPool : Pool where
  ucHeap := 1004
  configTotalHeapSize := 512
  xStart := 8
  not_null := by decide
  in_space := by decide
  total_lt := by decide
  room := by decide
  start_outside := by decide

/-- Three blocks, the middle one freed: 96 bytes at 1072 between two allocations. -/
theorem heap_tiles_pool_three : ∃ s, (allocator smallPool).Reach s ∧
    s.live.length = 2 ∧ s.heap.pxEnd = 1488 ∧ ∃ tiles : List (Tile Nat),
      smallPool.start + extent tiles = s.heap.pxEnd ∧
      FreeList smallPool s.heap.mem s.heap.pxEnd (freeBlocks smallPool.start tiles) := by
  obtain ⟨s, hreach, hs⟩ := (allocator smallPool).exists_reach
    [.malloc 40, .malloc 70, .malloc 100, .free 1088]
    (fun s => decide (s.live.length = 2 ∧ s.heap.pxEnd = 1488)) (by decide +kernel)
  obtain ⟨hlive, hend⟩ := of_decide_eq_true hs
  obtain ⟨-, -, htiles⟩ := heap_tiles_pool smallPool hreach
  obtain ⟨tiles, hcovers, -, hlist, -⟩ := htiles (by omega)
  exact ⟨s, hreach, hlive, hend, tiles, hcovers, hlist⟩

/-- One free tile determines the headers and what is free. -/
theorem Tiled.single {n : Nat} (htiled : Tiled pool h [⟨n, none⟩]) :
    n = pool.endMarker - pool.start ∧ h.mem pool.xStart = ⟨pool.start, 0⟩ ∧
      h.mem pool.start = ⟨pool.endMarker, n⟩ ∧ h.mem pool.endMarker = ⟨0, 0⟩ ∧
      h.xFreeBytesRemaining = n := by
  have hcovers := htiled.covers
  obtain ⟨⟨hfirst, hlast⟩, hsizes, hstart, hending⟩ := htiled.freeList
  have hsize : (h.mem pool.start).xBlockSize = n := hsizes (pool.start, n) (by simp [freeBlocks])
  have hremaining := htiled.remaining
  simp only [extent_cons, extent_nil] at hcovers
  simp only [freeBlocks, blocksTotal_cons, blocksTotal_nil, Nat.add_zero] at hremaining
  refine ⟨by omega, ?_, ?_, hending, hremaining⟩
  · exact congrArg₂ BlockLink.mk hfirst hstart
  · exact congrArg₂ BlockLink.mk hlast hsize

/-- When every allocation has been freed, in whatever order, the free list is the one
    block that `vPortInitialiseBlocks` set up and as much is free as then. -/
theorem heap_reclaims_pool (pool : Pool) {s : HeapState} (h : (allocator pool).Reach s)
    (hlive : s.live = []) :
    let h₀ := vPortInitialiseBlocks pool Heap.boot
    (s.heap.pxEnd = 0 → s.heap = Heap.boot) ∧
      (s.heap.pxEnd ≠ 0 →
        FreeList pool s.heap.mem h₀.pxEnd [(pool.start, h₀.xFreeBytesRemaining)] ∧
        s.heap.mem pool.xStart = h₀.mem pool.xStart ∧
        s.heap.mem pool.start = h₀.mem pool.start ∧
        s.heap.mem h₀.pxEnd = h₀.mem h₀.pxEnd ∧
        s.heap.pxEnd = h₀.pxEnd ∧
        s.heap.xFreeBytesRemaining = h₀.xFreeBytesRemaining) := by
  intro h₀
  obtain ⟨hheap, -, -⟩ | ⟨tiles, hacc⟩ := heapInv_of_reach h
  · exact ⟨fun _ => hheap, fun hend => absurd (congrArg Heap.pxEnd hheap) hend⟩
  refine ⟨fun hend => absurd hend hacc.tiled.pxEnd_ne_zero, fun _ => ?_⟩
  have htiled := hacc.tiled
  have hheld : heldBlocks pool.start tiles = [] := by
    have hperm := hacc.live
    rw [hlive] at hperm
    exact List.map_eq_nil_iff.mp hperm.symm.eq_nil
  have hne : tiles ≠ [] := by
    rintro rfl
    have hcovers := htiled.covers
    have hmarker := pool.endMarker_spec
    simp only [extent_nil] at hcovers
    omega
  rw [eq_singleton_of_heldBlocks_nil htiled.separated hheld hne] at htiled
  obtain ⟨hn, hstart, hblock, hending, hremaining⟩ := htiled.single
  obtain ⟨-, hstart₀, hblock₀, hending₀, hremaining₀⟩ :=
    (tiled_initialised pool Heap.boot).single
  have hlist := htiled.freeList
  rw [hn] at hblock hremaining hlist
  refine ⟨?_, hstart.trans hstart₀.symm, hblock.trans hblock₀.symm, hending.trans hending₀.symm,
    htiled.pxEnd, hremaining.trans hremaining₀.symm⟩
  rw [hremaining₀]
  exact hlist

/-- The three blocks again, freed middle first. -/
theorem heap_reclaims_pool_three : ∃ s, (allocator smallPool).Reach s ∧ s.live = [] ∧
    s.heap.xMinimumEverFreeBytes = 192 ∧
    FreeList smallPool s.heap.mem 1488 [(smallPool.start, 480)] := by
  obtain ⟨s, hreach, hs⟩ := (allocator smallPool).exists_reach
    [.malloc 40, .malloc 70, .malloc 100, .free 1088, .free 1024, .free 1184]
    (fun s => decide (s.live = [] ∧ s.heap.xMinimumEverFreeBytes = 192 ∧ s.heap.pxEnd = 1488))
    (by decide +kernel)
  obtain ⟨hlive, hleast, hend⟩ := of_decide_eq_true hs
  obtain ⟨-, hreclaimed⟩ := heap_reclaims_pool smallPool hreach hlive
  exact ⟨s, hreach, hlive, hleast, (hreclaimed (by omega)).1⟩

end Heap4

end FlintRTOS
