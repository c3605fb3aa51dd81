import FlintRTOS.Heap4FreeList
import Mathlib.Data.Nat.Bitwise
import Mathlib.Order.Bounds.Basic

/-!
# The heap tiles its pool

In every state that can be reached the blocks of the heap, free and allocated, are
a tiling of the range from the aligned start of the pool to `pxEnd`.  `Tiled` says
that the memory and the counters stand for a list of tiles; `pvPortMalloc` carves a
tile out of a free one and `vPortFree` releases one.
-/

namespace FlintRTOS

namespace Heap4

open Tiling

variable {pool : Pool}

/-! ### The pool -/

/-- The aligned start of the pool. -/
def Pool.start (pool : Pool) : Nat := alignStart pool.ucHeap

theorem Pool.start_spec (pool : Pool) :
    pool.ucHeap ≤ pool.start ∧ pool.start % 16 = 0 := by
  unfold Pool.start alignStart alignDown
  simp only [heapByteAlignment]
  split
  · omega
  · omega

theorem Pool.endMarker_spec (pool : Pool) :
    pool.start + 16 ≤ pool.endMarker ∧ pool.endMarker % 16 = 0 ∧
      pool.endMarker + 16 ≤ pool.ucHeap + pool.configTotalHeapSize := by
  obtain ⟨hle, haligned⟩ := pool.start_spec
  have hroom := pool.room
  change pool.start + 2 * 16 ≤ _ at hroom
  have hend : pool.endMarker = alignDown (pool.start +
      (pool.configTotalHeapSize - (pool.start - pool.ucHeap)) - 16) := rfl
  rw [hend]
  unfold alignDown
  simp only [heapByteAlignment]
  omega

theorem Pool.xStart_ne {a : Nat} (hle : pool.start ≤ a) (hge : a ≤ pool.endMarker) :
    pool.xStart ≠ a := by
  have hstart := pool.start_spec
  have hend := pool.endMarker_spec
  have houtside := pool.start_outside
  omega

theorem Pool.endMarker_lt (pool : Pool) : pool.endMarker < 2 ^ 64 := by
  have hend := pool.endMarker_spec
  have hspace := pool.in_space
  omega

variable {tiles : List (Tile Nat)}

/-- No block of the pool is large enough to reach the allocated bit. -/
theorem Pool.extent_lt (hcovers : pool.start + extent tiles = pool.endMarker) :
    extent tiles < 2 ^ 63 := by
  have hstart := pool.start_spec
  have hend := pool.endMarker_spec
  have htotal := pool.total_lt
  omega

theorem Pool.blocksTotal_lt (hcovers : pool.start + extent tiles = pool.endMarker) :
    blocksTotal (freeBlocks pool.start tiles) < 2 ^ 63 :=
  Nat.lt_of_le_of_lt blocksTotal_freeBlocks_le (Pool.extent_lt hcovers)

/-! ### The allocated bit -/

theorem or_heapAllocBit {n : Nat} (h : n < 2 ^ 63) : n ||| heapAllocBit = 2 ^ 63 + n := by
  have hadd := Nat.two_pow_add_eq_or_of_lt h 1
  rw [Nat.mul_one] at hadd
  rw [Nat.or_comm]
  exact hadd.symm

theorem prvBlockIsAllocated_of_or {b : BlockLink} {n : Nat}
    (h : b.xBlockSize = n ||| heapAllocBit) : prvBlockIsAllocated b = true := by
  have hbit : (n ||| heapAllocBit) &&& heapAllocBit = heapAllocBit := by
    apply Nat.eq_of_testBit_eq
    intro i
    simp only [Nat.testBit_and, Nat.testBit_or]
    cases heapAllocBit.testBit i <;> simp
  simp [prvBlockIsAllocated, h, hbit]

theorem clear_heapAllocBit {n : Nat} (h : n < 2 ^ 63) :
    (n ||| heapAllocBit) &&& (2 ^ 64 - 1 - heapAllocBit) = n := by
  have hmask : 2 ^ 64 - 1 - heapAllocBit = 2 ^ 63 - 1 := by decide
  rw [hmask, Nat.and_two_pow_sub_one_eq_mod, or_heapAllocBit h, Nat.add_mod_left,
    Nat.mod_eq_of_lt h]

/-! ### Memory as tiles -/

/-- The headers of the allocated blocks carry their sizes and the allocated bit. -/
def Headers (mem : Nat → BlockLink) (held : List (Nat × Nat × Nat)) : Prop :=
  ∀ x ∈ held, (mem x.1).xBlockSize = x.2.1 ||| heapAllocBit

variable {mem : Nat → BlockLink}

theorem Headers.insert {l l' : List (Nat × Nat × Nat)} {x : Nat × Nat × Nat}
    (h : Headers mem (l ++ l')) (hx : (mem x.1).xBlockSize = x.2.1 ||| heapAllocBit) :
    Headers mem (l ++ x :: l') := by
  intro y hy
  rcases List.mem_append.mp hy with hy | hy
  · exact h y (List.mem_append_left _ hy)
  · rcases List.mem_cons.mp hy with rfl | hy
    · exact hx
    · exact h y (List.mem_append_right _ hy)

/-- The heap stands for `tiles`; the owner of an allocated tile is the size that was
    requested. -/
structure Tiled (pool : Pool) (h : Heap) (tiles : List (Tile Nat)) : Prop where
  pxEnd : h.pxEnd = pool.endMarker
  covers : pool.start + extent tiles = pool.endMarker
  sizes : ∀ t ∈ tiles, 0 < t.size ∧ t.size % 16 = 0
  separated : Separated tiles
  freeList : FreeList pool h.mem pool.endMarker (freeBlocks pool.start tiles)
  headers : Headers h.mem (heldBlocks pool.start tiles)
  requests : ∀ x ∈ heldBlocks pool.start tiles, x.2.2 + xHeapStructSize ≤ x.2.1
  remaining : h.xFreeBytesRemaining = blocksTotal (freeBlocks pool.start tiles)

section tiles

variable {pre post : List (Tile Nat)} {n : Nat} {o : Option Nat}

/-- The addresses the free list goes through, with a tile's own among them, are
    distinct. -/
theorem nodup_addresses (hpos : ∀ t ∈ pre ++ ⟨n, o⟩ :: post, 0 < t.size)
    (hcovers : pool.start + extent (pre ++ ⟨n, o⟩ :: post) = pool.endMarker) :
    (pool.xStart :: addresses (freeBlocks pool.start pre) ++ (pool.start + extent pre) ::
      (addresses (freeBlocks (pool.start + extent pre + n) post) ++ [pool.endMarker])).Nodup := by
  -- with the tile free and one more at the end marker these are all free blocks
  have hpos' : ∀ t ∈ pre ++ ⟨n, none⟩ :: (post ++ [⟨1, none⟩] : List (Tile Nat)), 0 < t.size := by
    intro t ht
    simp only [List.mem_append, List.mem_cons, List.not_mem_nil, or_false] at ht
    rcases ht with ht | rfl | ht | rfl
    · exact hpos t (by simp [ht])
    · exact hpos ⟨n, o⟩ (by simp)
    · exact hpos t (by simp [ht])
    · exact Nat.one_pos
  have hasc : (freeBlocks pool.start _).Pairwise fun x y => x.1 < y.1 :=
    freeBlocks_ascending hpos'
  have hend : pool.start + extent pre + n + extent post = pool.endMarker := by
    simp only [extent_append, extent_cons] at hcovers
    omega
  have haddr : addresses (freeBlocks pool.start
      (pre ++ ⟨n, none⟩ :: (post ++ [⟨1, none⟩]))) =
      addresses (freeBlocks pool.start pre) ++ (pool.start + extent pre) ::
        (addresses (freeBlocks (pool.start + extent pre + n) post) ++ [pool.endMarker]) := by
    simp [freeBlocks_append, freeBlocks, addresses, hend]
  rw [List.cons_append, ← haddr, List.nodup_cons]
  constructor
  · intro hmem
    obtain ⟨⟨a, k⟩, hx, ha⟩ := List.mem_map.mp hmem
    have hlow := (freeBlocks_bounds hx).1
    have hhigh := freeBlocks_lt hpos' hx
    simp only [extent_append, extent_cons, extent_nil] at hhigh
    refine Pool.xStart_ne hlow ?_ ha.symm
    omega
  · exact (List.pairwise_map.mpr hasc).imp fun h => h.ne

theorem gap_of_tiles (hpos : ∀ t ∈ pre ++ ⟨n, o⟩ :: post, 0 < t.size)
    (hcovers : pool.start + extent (pre ++ ⟨n, o⟩ :: post) = pool.endMarker) :
    Gap pool pool.endMarker (freeBlocks pool.start pre) (pool.start + extent pre) n
      (freeBlocks (pool.start + extent pre + n) post) := by
  have hpre : ∀ t ∈ pre, 0 < t.size := fun t ht => hpos t (by simp [ht])
  have hend : pool.start + extent pre + n + extent post = pool.endMarker := by
    simp only [extent_append, extent_cons] at hcovers
    omega
  constructor
  · exact nodup_addresses hpos hcovers
  · rintro ⟨a, k⟩ hx
    exact freeBlocks_lt hpre hx
  · rintro ⟨a, k⟩ hx
    have hbounds := freeBlocks_bounds hx
    constructor
    · exact hbounds.1
    · exact hbounds.2.trans hend.le
  · omega
  · exact pool.endMarker_lt
  · have hlength : (freeBlocks pool.start pre).length ≤ extent pre := length_freeBlocks_le hpre
    have hstart := pool.start_spec
    have hmarker := pool.endMarker_spec
    unfold Pool.fuel
    omega

/-- The allocated blocks beside a tile have headers of their own. -/
theorem held_aside (hpos : ∀ t ∈ pre ++ ⟨n, o⟩ :: post, 0 < t.size)
    (hcovers : pool.start + extent (pre ++ ⟨n, o⟩ :: post) = pool.endMarker)
    {x : Nat × Nat × Nat} (hx : x ∈ heldBlocks pool.start pre ++
      heldBlocks (pool.start + extent pre + n) post) :
    (x.1 < pool.start + extent pre ∨ pool.start + extent pre + n ≤ x.1) ∧
      x.1 ∉ pool.xStart :: addresses (freeBlocks pool.start pre) := by
  have hpre : ∀ t ∈ pre, 0 < t.size := fun t ht => hpos t (by simp [ht])
  have hpost : ∀ t ∈ post, 0 < t.size := fun t ht => hpos t (by simp [ht])
  simp only [extent_append, extent_cons] at hcovers
  obtain ⟨a, k, r⟩ := x
  rcases List.mem_append.mp hx with hx | hx
  · have hlow := (heldBlocks_bounds hx).1
    have hlt := heldBlocks_lt hpre hx
    refine ⟨.inl hlt, ?_⟩
    rw [List.mem_cons, not_or]
    constructor
    · exact (Pool.xStart_ne hlow (by omega)).symm
    · intro hmem
      obtain ⟨⟨c, j⟩, hc, rfl⟩ := List.mem_map.mp hmem
      exact freeBlocks_ne_heldBlocks hpre hc hx rfl
  · have hlow := (heldBlocks_bounds hx).1
    have hlt := heldBlocks_lt hpost hx
    refine ⟨.inr hlow, ?_⟩
    rw [List.mem_cons, not_or]
    constructor
    · exact (Pool.xStart_ne (by omega) (by omega)).symm
    · intro hmem
      obtain ⟨⟨c, j⟩, hc, rfl⟩ := List.mem_map.mp hmem
      have hc' := freeBlocks_lt hpre hc
      simp only at hlow
      omega

/-- What is written within an allocated tile does not touch the free list. -/
theorem freeList_within {mem mem' : Nat → BlockLink} {r : Nat}
    (hpos : ∀ t ∈ pre ++ ⟨n, some r⟩ :: post, 0 < t.size)
    (hcovers : pool.start + extent (pre ++ ⟨n, some r⟩ :: post) = pool.endMarker)
    (hlist : FreeList pool mem pool.endMarker
      (freeBlocks pool.start (pre ++ ⟨n, some r⟩ :: post)))
    (hkept : ∀ x, (x < pool.start + extent pre ∨ pool.start + extent pre + n ≤ x) →
      mem' x = mem x) :
    FreeList pool mem' pool.endMarker (freeBlocks pool.start (pre ++ ⟨n, some r⟩ :: post)) := by
  simp only [extent_append, extent_cons] at hcovers
  apply hlist.congr
  intro x hx
  apply hkept
  rcases List.mem_cons.mp hx with rfl | hx
  · have hstart := pool.start_spec
    have hend := pool.endMarker_spec
    have houtside := pool.start_outside
    omega
  rcases List.mem_cons.mp hx with rfl | hx
  · right
    omega
  · obtain ⟨⟨a, k⟩, hblock, rfl⟩ := List.mem_map.mp hx
    rw [freeBlocks_append, freeBlocks_cons_some] at hblock
    rcases List.mem_append.mp hblock with hblock | hblock
    · exact .inl (freeBlocks_lt (fun t ht => hpos t (by simp [ht])) hblock)
    · exact .inr (freeBlocks_bounds hblock).1

theorem insert_release (h : Heap) {r : Nat} (hend : h.pxEnd = pool.endMarker)
    (hpos : ∀ t ∈ pre ++ ⟨n, some r⟩ :: post, 0 < t.size)
    (hcovers : pool.start + extent (pre ++ ⟨n, some r⟩ :: post) = pool.endMarker)
    (hlist : FreeList pool h.mem pool.endMarker
      (freeBlocks pool.start (pre ++ ⟨n, some r⟩ :: post)))
    (hsize : (h.mem (pool.start + extent pre)).xBlockSize = n) :
    ∃ mem', prvInsertBlockIntoFreeList pool (pool.start + extent pre) h =
        some { h with mem := mem' } ∧
      FreeList pool mem' pool.endMarker (freeBlocks pool.start (release pre n post)) ∧
      (∀ x, x ≠ pool.start + extent pre →
        x ∉ pool.xStart :: addresses (freeBlocks pool.start pre) → mem' x = h.mem x) ∧
      ∀ x, x ∉ addresses (freeBlocks pool.start (release pre n post)) →
        (mem' x).xBlockSize = (h.mem x).xBlockSize := by
  have hpre : ∀ t ∈ pre, 0 < t.size := fun t ht => hpos t (by simp [ht])
  have hpost : ∀ t ∈ post, 0 < t.size := fun t ht => hpos t (by simp [ht])
  rw [freeBlocks_append, freeBlocks_cons_some, ← hend] at hlist
  have hgap := gap_of_tiles hpos hcovers
  rw [← hend] at hgap
  obtain ⟨mem', hinsert, hlist', hkept, hsame⟩ := prvInsertBlockIntoFreeList_spec hlist hsize hgap
  rw [← freeBlocks_release hpre hpost] at hlist' hsame
  rw [hend] at hlist'
  exact ⟨mem', hinsert, hlist', hkept, hsame⟩

end tiles

/-! ### Freeing -/

theorem Tiled.size_lt {h : Heap} {pre post : List (Tile Nat)} {n : Nat} {o : Option Nat}
    (htiled : Tiled pool h (pre ++ ⟨n, o⟩ :: post)) : n < 2 ^ 63 := by
  have hextent := Pool.extent_lt htiled.covers
  simp only [extent_append, extent_cons] at hextent
  omega

/-- The headers of the blocks beside a tile are not on the free list and not the
    tile's own. -/
theorem Tiled.headers_aside {h : Heap} {mem' : Nat → BlockLink} {pre post : List (Tile Nat)}
    {n : Nat} {o : Option Nat} (htiled : Tiled pool h (pre ++ ⟨n, o⟩ :: post))
    (hkept : ∀ x, (x < pool.start + extent pre ∨ pool.start + extent pre + n ≤ x) →
      x ∉ pool.xStart :: addresses (freeBlocks pool.start pre) → mem' x = h.mem x) :
    Headers mem' (heldBlocks pool.start pre ++
      heldBlocks (pool.start + extent pre + n) post) := by
  intro x hx
  have hpos := fun t ht => (htiled.sizes t ht).1
  obtain ⟨hapart, hnode⟩ := held_aside hpos htiled.covers hx
  rw [hkept x.1 hapart hnode]
  apply htiled.headers
  rw [heldBlocks_append]
  rcases List.mem_append.mp hx with hx | hx
  · exact List.mem_append_left _ hx
  · apply List.mem_append_right
    cases o with
    | none => exact hx
    | some r => exact List.mem_cons_of_mem _ hx

theorem Tiled.covers_release {h : Heap} {pre post : List (Tile Nat)} {n r : Nat}
    (htiled : Tiled pool h (pre ++ ⟨n, some r⟩ :: post)) :
    pool.start + extent (release pre n post) = pool.endMarker := by
  have hcovers := htiled.covers
  simp only [extent_append, extent_cons] at hcovers
  rw [extent_release]
  omega

theorem Tiled.total_release {h : Heap} {pre post : List (Tile Nat)} {n r : Nat}
    (htiled : Tiled pool h (pre ++ ⟨n, some r⟩ :: post)) :
    blocksTotal (freeBlocks pool.start (release pre n post)) = h.xFreeBytesRemaining + n := by
  have hpos := fun t ht => (htiled.sizes t ht).1
  rw [freeBlocks_release (fun t ht => hpos t (by simp [ht])) (fun t ht => hpos t (by simp [ht])),
    blocksTotal_insertBlock, htiled.remaining, freeBlocks_append, freeBlocks_cons_some,
    blocksTotal_append]
  omega

/-- A released block is on the list and credited: its tile is free. -/
theorem Tiled.released {h : Heap} {pre post : List (Tile Nat)} {n r : Nat}
    (htiled : Tiled pool h (pre ++ ⟨n, some r⟩ :: post))
    (hlist : FreeList pool mem pool.endMarker (freeBlocks pool.start (release pre n post)))
    (hkept : ∀ x, x ≠ pool.start + extent pre →
      x ∉ pool.xStart :: addresses (freeBlocks pool.start pre) → mem x = h.mem x) :
    Tiled pool ⟨mem, h.pxEnd, h.xFreeBytesRemaining + n, h.xMinimumEverFreeBytes⟩
      (release pre n post) := by
  have hn := htiled.sizes ⟨n, some r⟩ (by simp)
  obtain ⟨hsepl, hsepr, -, -⟩ := separated_append_cons.mp htiled.separated
  constructor
  · exact htiled.pxEnd
  · exact htiled.covers_release
  · apply forall_size_release (P := fun k => 0 < k ∧ k % 16 = 0)
    · rintro a b ⟨ha, ha'⟩ ⟨hb, hb'⟩
      omega
    · exact fun t ht => htiled.sizes t (by simp [ht])
    · exact hn
    · exact fun t ht => htiled.sizes t (by simp [ht])
  · exact separated_release hsepl hsepr
  · exact hlist
  · rw [heldBlocks_release]
    apply htiled.headers_aside
    intro x hx hnode
    exact hkept x (by simp only at hn; omega) hnode
  · intro x hx
    apply htiled.requests
    rw [heldBlocks_release] at hx
    rw [heldBlocks_append, heldBlocks_cons_some]
    simp only [List.mem_append, List.mem_cons] at hx ⊢
    tauto
  · exact htiled.total_release.symm

/-- `vPortFree` of an allocated block releases its tile.  No header that was clear
    of the allocated bit gets it, and the block's own is cleared. -/
theorem vPortFree_spec {h : Heap} {pre post : List (Tile Nat)} {n r : Nat}
    (htiled : Tiled pool h (pre ++ ⟨n, some r⟩ :: post)) :
    ∃ h', vPortFree pool (pool.start + extent pre + xHeapStructSize) h = some h' ∧
      Tiled pool h' (release pre n post) ∧
      h'.xFreeBytesRemaining = h.xFreeBytesRemaining + n ∧
      h'.xMinimumEverFreeBytes = h.xMinimumEverFreeBytes ∧
      ∀ x, x = pool.start + extent pre ∨ (h.mem x).xBlockSize < 2 ^ 63 →
        (h'.mem x).xBlockSize < 2 ^ 63 := by
  have hpos := fun t ht => (htiled.sizes t ht).1
  have hn := htiled.size_lt
  have hnpos : 0 < n := hpos ⟨n, some r⟩ (by simp)
  have hheader : (h.mem (pool.start + extent pre)).xBlockSize = n ||| heapAllocBit := by
    apply htiled.headers (pool.start + extent pre, n, r)
    simp [heldBlocks_append, heldBlocks_cons_some]
  have hfits : h.xFreeBytesRemaining + n < 2 ^ 64 := by
    have hlt := Pool.blocksTotal_lt htiled.covers_release
    rw [htiled.total_release] at hlt
    omega
  -- the block with its mark cleared is not yet on the list
  obtain ⟨mem₁, hmem₁⟩ : ∃ mem₁, mem₁ =
      Function.update h.mem (pool.start + extent pre) ⟨0, n⟩ := ⟨_, rfl⟩
  have hlist : FreeList pool mem₁ pool.endMarker
      (freeBlocks pool.start (pre ++ ⟨n, some r⟩ :: post)) := by
    apply freeList_within hpos htiled.covers htiled.freeList
    intro x hx
    rw [hmem₁]
    apply Function.update_of_ne
    omega
  have hcleared : (mem₁ (pool.start + extent pre)).xBlockSize = n := by
    rw [hmem₁, Function.update_self]
  obtain ⟨mem', hinsert, hlist', hkept, hsame⟩ := insert_release
    ⟨mem₁, h.pxEnd, h.xFreeBytesRemaining + n, h.xMinimumEverFreeBytes⟩
    htiled.pxEnd hpos htiled.covers hlist hcleared
  refine ⟨⟨mem', h.pxEnd, h.xFreeBytesRemaining + n, h.xMinimumEverFreeBytes⟩, ?_, ?_, rfl, rfl, ?_⟩
  · have hpv : pool.start + extent pre + xHeapStructSize ≠ 0 := Nat.succ_ne_zero _
    rw [vPortFree, if_neg hpv]
    dsimp only
    rw [Nat.add_sub_cancel, prvBlockIsAllocated_of_or hheader, if_neg (by simp), freeBlock, hheader,
      clear_heapAllocBit hn, sizeAdd_eq hfits, ← hmem₁]
    exact hinsert
  · apply htiled.released hlist'
    intro x hne hnode
    rw [hkept x hne hnode, hmem₁]
    exact Function.update_of_ne hne ..
  · intro x hx
    by_cases hnode : x ∈ addresses (freeBlocks pool.start (release pre n post))
    · -- on the list a header carries the size of its block
      obtain ⟨y, hy, rfl⟩ := List.mem_map.mp hnode
      have hle : y.2 ≤ _ := le_blocksTotal hy
      have hlt := Pool.blocksTotal_lt htiled.covers_release
      show (mem' y.1).xBlockSize < 2 ^ 63
      rw [hlist'.sizes y hy]
      omega
    · show (mem' x).xBlockSize < 2 ^ 63
      rw [hsame x hnode]
      by_cases hheader' : x = pool.start + extent pre
      · rw [hheader']
        exact hcleared ▸ hn
      · show (mem₁ x).xBlockSize < 2 ^ 63
        rw [hmem₁, Function.update_of_ne hheader']
        exact hx.resolve_left hheader'

/-! ### Allocating -/

/-- The header is accounted for and the size rounded up, without a wrap around. -/
theorem wantedBlockSize_spec {n : Nat} (hn : n < 2 ^ 63) :
    n + xHeapStructSize ≤ wantedBlockSize n ∧ wantedBlockSize n < n + 2 * xHeapStructSize ∧
      wantedBlockSize n % 16 = 0 := by
  have hadd : sizeAdd n xHeapStructSize = n + 16 := sizeAdd_eq (by simp only [xHeapStructSize]; omega)
  unfold wantedBlockSize
  simp only [hadd, heapByteAlignment, xHeapStructSize]
  split
  · rw [sizeAdd_eq (by omega)]
    omega
  · omega

theorem and_heapAllocBit_eq_zero {n : Nat} (h : n < 2 ^ 64) :
    n &&& heapAllocBit = 0 ↔ n < 2 ^ 63 := by
  rw [Nat.and_two_pow]
  by_cases hn : n < 2 ^ 63
  · simp only [Nat.testBit_lt_two_pow hn, Bool.toNat_false, Nat.zero_mul, hn]
  · have hbit : n.testBit 63 = true := by
      rw [Nat.testBit_eq_decide_div_mod_eq, decide_eq_true_iff]
      omega
    simp only [hbit, hn, iff_false]
    decide

theorem Tiled.link_ne_zero {h : Heap} (htiled : Tiled pool h tiles) {x : Nat × Nat}
    (hx : x ∈ freeBlocks pool.start tiles) : links h.mem x.1 ≠ 0 := by
  have hnext := htiled.freeList.linked.next_mem (List.mem_cons_of_mem _ (List.mem_map_of_mem hx))
  have hstart := pool.start_spec
  have hnull := pool.not_null
  rcases List.mem_append.mp hnext with hnode | hend
  · obtain ⟨⟨a, k⟩, hblock, ha⟩ := List.mem_map.mp hnode
    have hlow := (freeBlocks_bounds hblock).1
    rw [← ha]
    show a ≠ 0
    omega
  · have hmarker := pool.endMarker_spec
    rw [List.mem_singleton.mp hend]
    omega

/-- Past the blocks that are too small the search stops at the first that fits. -/
theorem Tiled.firstFit_found {h : Heap} {pre post : List (Tile Nat)} {m w : Nat}
    (htiled : Tiled pool h (pre ++ ⟨m, none⟩ :: post))
    (hsmall : ∀ x ∈ freeBlocks pool.start pre, x.2 < w) (hfits : w ≤ m) :
    firstFit h.mem w pool.fuel pool.xStart (links h.mem pool.xStart) =
      some ((addresses (freeBlocks pool.start pre)).getLastD pool.xStart,
        pool.start + extent pre) := by
  have hpos := fun t ht => (htiled.sizes t ht).1
  have hgap := gap_of_tiles hpos htiled.covers
  have hlist := htiled.freeList
  have hblocks : freeBlocks pool.start (pre ++ ⟨m, none⟩ :: post) = freeBlocks pool.start pre ++
      (pool.start + extent pre, m) :: freeBlocks (pool.start + extent pre + m) post := by
    rw [freeBlocks_append, freeBlocks_cons_none]
  have hlinked := hlist.linked
  rw [hblocks, addresses_append] at hlinked
  have hm : (h.mem (pool.start + extent pre)).xBlockSize = m :=
    hlist.sizes (pool.start + extent pre, m) (by simp [hblocks])
  apply firstFit_spec (leads_append.mp hlinked).1
  · intro x hx
    obtain ⟨y, hy, rfl⟩ := List.mem_map.mp hx
    have hy' : y ∈ freeBlocks pool.start (pre ++ ⟨m, none⟩ :: post) := by simp [hblocks, hy]
    rw [hlist.sizes y hy']
    exact ⟨hsmall y hy, htiled.link_ne_zero hy'⟩
  · show ¬((h.mem (pool.start + extent pre)).xBlockSize < w ∧ _)
    omega
  · simpa using hgap.length_lt

/-- When every block is too small the search ends at the end marker. -/
theorem Tiled.firstFit_exhausted {h : Heap} {w : Nat} (htiled : Tiled pool h tiles)
    (hsmall : ∀ x ∈ freeBlocks pool.start tiles, x.2 < w) :
    ∃ p, firstFit h.mem w pool.fuel pool.xStart (links h.mem pool.xStart) =
      some (p, pool.endMarker) := by
  have hlist := htiled.freeList
  refine ⟨_, firstFit_spec hlist.linked ?_ ?_ ?_⟩
  · intro x hx
    obtain ⟨y, hy, rfl⟩ := List.mem_map.mp hx
    rw [hlist.sizes y hy]
    exact ⟨hsmall y hy, htiled.link_ne_zero hy⟩
  · simp [links, hlist.ending]
  · have hlength : (freeBlocks pool.start tiles).length ≤ extent tiles :=
      length_freeBlocks_le fun t ht => (htiled.sizes t ht).1
    have hstart := pool.start_spec
    have hmarker := pool.endMarker_spec
    have hcovers := htiled.covers
    simp only [addresses, List.length_map, Pool.fuel]
    omega

/-- A block of size `m` was cut after its first `w`: the rest is a tile of its own
    that goes back to the list. -/
theorem insertRest_spec {h : Heap} {pre post : List (Tile Nat)} {m w r : Nat}
    (hend : h.pxEnd = pool.endMarker) (hpos : ∀ t ∈ pre ++ ⟨m, none⟩ :: post, 0 < t.size)
    (hcovers : pool.start + extent (pre ++ ⟨m, none⟩ :: post) = pool.endMarker)
    (hsep : Separated (pre ++ ⟨m, none⟩ :: post)) (hlist : FreeList pool h.mem pool.endMarker
      (freeBlocks pool.start (pre ++ ⟨m, some r⟩ :: post))) (hw : 0 < w) (hfits : w < m)
    (hrest : (mem (pool.start + extent pre + w)).xBlockSize = m - w)
    (hfirst : (mem (pool.start + extent pre)).xBlockSize = w)
    (hother : ∀ x, x ≠ pool.start + extent pre → x ≠ pool.start + extent pre + w →
      mem x = h.mem x) :
    ∃ mem', prvInsertBlockIntoFreeList pool (pool.start + extent pre + w)
        { h with mem := mem } = some { h with mem := mem' } ∧
      FreeList pool mem' pool.endMarker
        (freeBlocks pool.start (pre ++ ([⟨w, some r⟩, ⟨m - w, none⟩] ++ post))) ∧
      (mem' (pool.start + extent pre)).xBlockSize = w ∧
      ∀ x, (x < pool.start + extent pre ∨ pool.start + extent pre + m ≤ x) →
        x ∉ pool.xStart :: addresses (freeBlocks pool.start pre) → mem' x = h.mem x := by
  have hpos' : ∀ t ∈ (pre ++ [⟨w, some r⟩]) ++ ⟨m - w, some r⟩ :: post, 0 < t.size := by
    intro t ht
    simp only [List.mem_append, List.mem_cons, List.not_mem_nil, or_false] at ht
    rcases ht with (ht | rfl) | rfl | ht
    · exact hpos t (by simp [ht])
    · exact hw
    · exact Nat.sub_pos_of_lt hfits
    · exact hpos t (by simp [ht])
  have hheld : ∀ t ∈ pre ++ ⟨m, some r⟩ :: post, 0 < t.size := by
    intro t ht
    rcases List.mem_append.mp ht with ht | ht
    · exact hpos t (by simp [ht])
    · rcases List.mem_cons.mp ht with rfl | ht
      · exact hw.trans hfits
      · exact hpos t (by simp [ht])
  have hcovers' : pool.start + extent ((pre ++ [⟨w, some r⟩]) ++ ⟨m - w, some r⟩ :: post) =
      pool.endMarker := by
    simp only [extent_append, extent_cons, extent_nil] at hcovers ⊢
    omega
  have hblocks : freeBlocks pool.start ((pre ++ [⟨w, some r⟩]) ++ ⟨m - w, some r⟩ :: post) =
      freeBlocks pool.start (pre ++ ⟨m, some r⟩ :: post) := by
    have hback : pool.start + extent pre + w + (m - w) = pool.start + extent pre + m := by omega
    simp [freeBlocks_append, freeBlocks, hback]
  have hpre : freeBlocks pool.start (pre ++ [⟨w, some r⟩]) = freeBlocks pool.start pre := by
    simp [freeBlocks_append, freeBlocks]
  have hnew : pool.start + extent (pre ++ [⟨w, some r⟩]) = pool.start + extent pre + w := by
    simp [Nat.add_assoc]
  have hlist' : FreeList pool mem pool.endMarker
      (freeBlocks pool.start ((pre ++ [⟨w, some r⟩]) ++ ⟨m - w, some r⟩ :: post)) := by
    rw [hblocks]
    apply freeList_within hheld _ hlist
    · intro x hx
      apply hother
      · omega
      · omega
    · simpa using hcovers
  obtain ⟨mem', hinsert, hreleased, hkept, -⟩ :=
    insert_release { h with mem := mem } hend hpos' hcovers' hlist' (hnew ▸ hrest)
  rw [hnew] at hinsert hkept
  rw [hpre] at hkept
  refine ⟨mem', hinsert, ?_, ?_, ?_⟩
  · -- the first part is allocated and a free tile was behind no other
    have hhead := (separated_append_cons.mp hsep).2.2.2
    rw [release_of_held (by simp) (by simpa using hhead)] at hreleased
    simpa using hreleased
  · rw [hkept]
    · exact hfirst
    · omega
    · have hnodup := nodup_addresses hpos hcovers
      intro hmem
      exact (List.nodup_append.mp hnodup).2.2 _ hmem _ (List.mem_cons_self ..) rfl
  · intro x hx hnode
    rw [hkept x (by omega) hnode]
    apply hother
    · omega
    · omega

/-- The block taken out of the list is split when enough is left over. -/
theorem splitBlock_spec (h : Heap) {pre post : List (Tile Nat)} {m w r : Nat}
    (hend : h.pxEnd = pool.endMarker)
    (hpos : ∀ t ∈ pre ++ ⟨m, none⟩ :: post, 0 < t.size)
    (hcovers : pool.start + extent (pre ++ ⟨m, none⟩ :: post) = pool.endMarker)
    (hsep : Separated (pre ++ ⟨m, none⟩ :: post))
    (hlist : FreeList pool h.mem pool.endMarker
      (freeBlocks pool.start (pre ++ ⟨m, some r⟩ :: post)))
    (hsize : (h.mem (pool.start + extent pre)).xBlockSize = m) (hw : 0 < w) (hfits : w ≤ m) :
    ∃ mem', splitBlock pool w (pool.start + extent pre) h = some { h with mem := mem' } ∧
      FreeList pool mem' pool.endMarker
        (freeBlocks pool.start (pre ++ (carve (xHeapStructSize * 2) w m r ++ post))) ∧
      (mem' (pool.start + extent pre)).xBlockSize = carved (xHeapStructSize * 2) w m ∧
      ∀ x, (x < pool.start + extent pre ∨ pool.start + extent pre + m ≤ x) →
        x ∉ pool.xStart :: addresses (freeBlocks pool.start pre) → mem' x = h.mem x := by
  have hm : m < 2 ^ 64 := by
    have hextent := Pool.extent_lt hcovers
    simp only [extent_append, extent_cons] at hextent
    omega
  unfold splitBlock carve carved
  dsimp only
  rw [hsize, sizeSub_eq hfits hm]
  split
  · rename_i hsplit
    have hlt : w < m := by omega
    apply insertRest_spec hend hpos hcovers hsep hlist hw hlt
    · rw [setSize_of_ne (by omega), setSize_self]
    · rw [setSize_self]
    · intro x hx hx'
      rw [setSize_of_ne hx, setSize_of_ne hx']
  · exact ⟨h.mem, rfl, hlist, hsize, fun _ _ _ => rfl⟩

theorem markAllocated_minimum (a : Nat) (h : Heap) :
    (markAllocated a h).xMinimumEverFreeBytes =
      min h.xMinimumEverFreeBytes (markAllocated a h).xFreeBytesRemaining := by
  simp only [markAllocated]
  split
  · omega
  · omega

section carve

variable {h : Heap} {pre post : List (Tile Nat)} {m w r : Nat}

theorem Tiled.covers_carve (htiled : Tiled pool h (pre ++ ⟨m, none⟩ :: post)) (hfits : w ≤ m) :
    pool.start + extent (pre ++ (carve (xHeapStructSize * 2) w m r ++ post)) =
      pool.endMarker := by
  have hcovers := htiled.covers
  simp only [extent_append, extent_cons] at hcovers
  simp only [extent_append, extent_carve hfits]
  exact hcovers

theorem Tiled.sizes_carve (htiled : Tiled pool h (pre ++ ⟨m, none⟩ :: post))
    (hw : 0 < w) (hrounded : w % 16 = 0) :
    ∀ t ∈ pre ++ (carve (xHeapStructSize * 2) w m r ++ post), 0 < t.size ∧ t.size % 16 = 0 := by
  have hm : 0 < m ∧ m % 16 = 0 := htiled.sizes ⟨m, none⟩ (by simp)
  intro t ht
  rcases List.mem_append.mp ht with ht | ht
  · exact htiled.sizes t (by simp [ht])
  rcases List.mem_append.mp ht with ht | ht
  · refine forall_size_carve (P := fun k => 0 < k ∧ k % 16 = 0) ⟨hw, hrounded⟩ hm ?_ t ht
    intro hrest
    omega
  · exact htiled.sizes t (by simp [ht])

theorem heldBlocks_append_carve (hfits : w ≤ m) :
    heldBlocks pool.start (pre ++ (carve (xHeapStructSize * 2) w m r ++ post)) =
      heldBlocks pool.start pre ++
        (pool.start + extent pre, carved (xHeapStructSize * 2) w m, r) ::
          heldBlocks (pool.start + extent pre + m) post := by
  rw [heldBlocks_append, heldBlocks_append, heldBlocks_carve, extent_carve hfits]
  rfl

theorem Tiled.total_carve (htiled : Tiled pool h (pre ++ ⟨m, none⟩ :: post)) (hfits : w ≤ m) :
    blocksTotal (freeBlocks pool.start
      (pre ++ (carve (xHeapStructSize * 2) w m r ++ post))) + carved (xHeapStructSize * 2) w m =
      h.xFreeBytesRemaining := by
  have hcarve : blocksTotal (freeBlocks (pool.start + extent pre)
      (carve (xHeapStructSize * 2) w m r)) + carved (xHeapStructSize * 2) w m = m :=
    blocksTotal_carve hfits
  rw [htiled.remaining]
  simp only [freeBlocks_append, freeBlocks_cons_none, blocksTotal_append, blocksTotal_cons,
    extent_carve hfits]
  omega

/-- The block is charged to the counters and marked: a carved tile is allocated. -/
theorem Tiled.marked {mem : Nat → BlockLink}
    (htiled : Tiled pool h (pre ++ ⟨m, none⟩ :: post))
    (hrequest : r + xHeapStructSize ≤ w) (hrounded : w % 16 = 0) (hfits : w ≤ m)
    (hlist : FreeList pool mem pool.endMarker
      (freeBlocks pool.start (pre ++ (carve (xHeapStructSize * 2) w m r ++ post))))
    (hsize : (mem (pool.start + extent pre)).xBlockSize = carved (xHeapStructSize * 2) w m)
    (hkept : ∀ x, (x < pool.start + extent pre ∨ pool.start + extent pre + m ≤ x) →
      x ∉ pool.xStart :: addresses (freeBlocks pool.start pre) → mem x = h.mem x) :
    Tiled pool (markAllocated (pool.start + extent pre) { h with mem := mem })
      (pre ++ (carve (xHeapStructSize * 2) w m r ++ post)) := by
  have hw : 0 < w := Nat.lt_of_lt_of_le (Nat.succ_pos _) hrequest
  have hcovers := htiled.covers_carve (r := r) hfits
  have hsizes := htiled.sizes_carve (r := r) hw hrounded
  constructor
  · exact htiled.pxEnd
  · exact hcovers
  · exact hsizes
  · exact separated_carve htiled.separated
  · obtain ⟨rest, hrest⟩ := exists_carve_eq_cons (xHeapStructSize * 2) w m r
    have hcarved : w ≤ carved (xHeapStructSize * 2) w m := le_carved hfits
    rw [hrest, List.cons_append] at hlist hcovers hsizes ⊢
    apply freeList_within (fun t ht => (hsizes t ht).1) hcovers hlist
    intro x hx
    apply Function.update_of_ne
    omega
  · rw [heldBlocks_append_carve hfits]
    apply Headers.insert
    · apply htiled.headers_aside
      intro x hx hnode
      have hne : x ≠ pool.start + extent pre := by omega
      exact (Function.update_of_ne hne ..).trans (hkept x hx hnode)
    · simp [markAllocated, hsize]
  · intro x hx
    rw [heldBlocks_append_carve hfits, List.mem_append, List.mem_cons] at hx
    rcases hx with hx | rfl | hx
    · apply htiled.requests
      simp [heldBlocks_append, hx]
    · exact hrequest.trans (le_carved hfits)
    · apply htiled.requests
      simp [heldBlocks_append, heldBlocks_cons_none, hx]
  · have htotal := htiled.total_carve (r := r) hfits
    have hbound := Pool.blocksTotal_lt htiled.covers
    rw [← htiled.remaining] at hbound
    show sizeSub h.xFreeBytesRemaining (mem (pool.start + extent pre)).xBlockSize = _
    rw [hsize, sizeSub_eq (by omega) (by omega)]
    omega

end carve

/-- A free block that is large enough is carved: its tile, or the first part of it,
    goes to the request. -/
theorem allocateBlock_spec {h : Heap} {pre post : List (Tile Nat)} {m w r : Nat}
    (htiled : Tiled pool h (pre ++ ⟨m, none⟩ :: post)) (hrequest : r + xHeapStructSize ≤ w)
    (hrounded : w % 16 = 0) (hfits : w ≤ m) :
    ∃ h', allocateBlock pool w ((addresses (freeBlocks pool.start pre)).getLastD pool.xStart)
        (pool.start + extent pre) h = some (pool.start + extent pre + xHeapStructSize, h') ∧
      Tiled pool h' (pre ++ (carve (xHeapStructSize * 2) w m r ++ post)) ∧
      h'.xMinimumEverFreeBytes = min h.xMinimumEverFreeBytes h'.xFreeBytesRemaining := by
  have hpos := fun t ht => (htiled.sizes t ht).1
  have hw : 0 < w := Nat.lt_of_lt_of_le (Nat.succ_pos _) hrequest
  have hnodup := nodup_addresses hpos htiled.covers
  have hlist := htiled.freeList
  rw [freeBlocks_append, freeBlocks_cons_none] at hlist
  have hsize : (h.mem (pool.start + extent pre)).xBlockSize = m :=
    hlist.sizes (pool.start + extent pre, m) (by simp)
  have hprev : (h.mem ((addresses (freeBlocks pool.start pre)).getLastD
      pool.xStart)).pxNextFreeBlock = pool.start + extent pre := by
    have hlinked := hlist.linked
    rw [addresses_append] at hlinked
    exact (leads_append.mp hlinked).2.1
  obtain ⟨mem₁, hmem₁⟩ : ∃ mem₁, mem₁ = setNext h.mem
      ((addresses (freeBlocks pool.start pre)).getLastD pool.xStart)
      (h.mem (pool.start + extent pre)).pxNextFreeBlock := ⟨_, rfl⟩
  have hunlinked : FreeList pool mem₁ pool.endMarker
      (freeBlocks pool.start (pre ++ ⟨m, some r⟩ :: post)) := by
    rw [freeBlocks_append, freeBlocks_cons_some, hmem₁]
    exact hlist.unlink hnodup
  have hsize₁ : (mem₁ (pool.start + extent pre)).xBlockSize = m := by
    rw [hmem₁, xBlockSize_setNext, hsize]
  obtain ⟨mem', hsplit, hlist', hsize', hkept⟩ := splitBlock_spec { h with mem := mem₁ }
    htiled.pxEnd hpos htiled.covers htiled.separated hunlinked hsize₁ hw hfits
  refine ⟨markAllocated (pool.start + extent pre) { h with mem := mem' }, ?_, ?_, ?_⟩
  · rw [allocateBlock, hprev, ← hmem₁, hsplit]
    rfl
  · apply htiled.marked hrequest hrounded hfits hlist' hsize'
    intro x hx hnode
    rw [hkept x hx hnode]
    show mem₁ x = h.mem x
    rw [hmem₁]
    apply setNext_of_ne
    rintro rfl
    exact hnode List.getLastD_mem_cons
  · exact markAllocated_minimum ..

/-- What `pvPortMalloc` makes of a heap that stands for `tiles`: it refuses the
    request, or carves the first free tile that is large enough. -/
inductive MallocEffect (pool : Pool) (h : Heap) (tiles : List (Tile Nat)) (r : Nat) :
    Nat → Heap → Prop where
  | refused
      (hwhy : r = 0 ∨ 2 ^ 63 ≤ r ∨
        ∀ x ∈ freeBlocks pool.start tiles, x.2 < wantedBlockSize r) :
      MallocEffect pool h tiles r 0 h
  | allocated {pre post : List (Tile Nat)} {m : Nat} {h' : Heap}
      (htiles : tiles = pre ++ ⟨m, none⟩ :: post)
      (hsmall : ∀ x ∈ freeBlocks pool.start pre, x.2 < wantedBlockSize r)
      (hfits : wantedBlockSize r ≤ m)
      (htiled : Tiled pool h'
        (pre ++ (carve (xHeapStructSize * 2) (wantedBlockSize r) m r ++ post)))
      (hminimum : h'.xMinimumEverFreeBytes =
        min h.xMinimumEverFreeBytes h'.xFreeBytesRemaining) :
      MallocEffect pool h tiles r (pool.start + extent pre + xHeapStructSize) h'

theorem Tiled.ensureInitialised_eq {h : Heap} (htiled : Tiled pool h tiles) :
    ensureInitialised pool h = h := by
  have hmarker := pool.endMarker_spec
  have hend := htiled.pxEnd
  exact if_neg (by omega)

/-- The search and the allocation return, and do what `MallocEffect` says. -/
theorem allocateWanted_spec {h : Heap} {r : Nat} (htiled : Tiled pool h tiles) (hr : r < 2 ^ 63) :
    ∃ p h', allocateWanted pool (wantedBlockSize r) h = some (p, h') ∧
      MallocEffect pool h tiles r p h' := by
  obtain ⟨hrequest, -, hrounded⟩ := wantedBlockSize_spec hr
  have hmarker := pool.endMarker_spec
  cases hfind : (freeBlocks pool.start tiles).find? fun x => wantedBlockSize r ≤ x.2 with
  | none =>
    have hsmall : ∀ x ∈ freeBlocks pool.start tiles, x.2 < wantedBlockSize r := by
      intro x hx
      simpa using List.find?_eq_none.mp hfind x hx
    obtain ⟨p, hsearch⟩ := htiled.firstFit_exhausted hsmall
    refine ⟨0, h, ?_, .refused (.inr (.inr hsmall))⟩
    change (firstFit h.mem _ pool.fuel pool.xStart (links h.mem pool.xStart)).bind _ = _
    rw [hsearch]
    exact if_neg (not_not.mpr htiled.pxEnd.symm)
  | some x =>
    obtain ⟨a, m⟩ := x
    obtain ⟨hfits, l, l', hblocks, hsmall⟩ := List.find?_eq_some_iff_append.mp hfind
    obtain ⟨pre, post, rfl, rfl, rfl, rfl⟩ := exists_tile_of_freeBlocks hblocks
    have hfits : wantedBlockSize r ≤ m := by simpa using hfits
    have hsmall : ∀ x ∈ freeBlocks pool.start pre, x.2 < wantedBlockSize r := by
      intro x hx
      simpa using hsmall x hx
    have hsearch := htiled.firstFit_found hsmall hfits
    obtain ⟨h', hallocate, htiled', hminimum⟩ := allocateBlock_spec htiled hrequest hrounded hfits
    refine ⟨_, h', ?_, .allocated rfl hsmall hfits htiled' hminimum⟩
    change (firstFit h.mem _ pool.fuel pool.xStart (links h.mem pool.xStart)).bind _ = _
    rw [hsearch]
    refine (if_pos ?_).trans hallocate
    have hcovers := htiled.covers
    have hm := (htiled.sizes ⟨m, none⟩ (by simp)).1
    rw [htiled.pxEnd]
    simp only [extent_append, extent_cons] at hcovers
    simp only at hm
    omega

theorem pvPortMalloc_spec {h : Heap} (xWantedSize : UInt64) (htiled : Tiled pool h tiles) :
    ∃ p h', pvPortMalloc pool xWantedSize h = some (p, h') ∧
      MallocEffect pool h tiles xWantedSize.toNat p h' := by
  have hbit := and_heapAllocBit_eq_zero xWantedSize.toNat_lt
  unfold pvPortMalloc
  rw [htiled.ensureInitialised_eq]
  dsimp only
  split
  · rename_i hrefused
    refine ⟨0, h, rfl, .refused ?_⟩
    rcases hrefused with hzero | hset
    · exact .inl hzero
    · right
      left
      by_contra hlt
      exact hset (hbit.mpr (not_le.mp hlt))
  · rename_i hadmitted
    rw [not_or, not_not] at hadmitted
    split
    · rename_i htotal
      refine ⟨0, h, rfl, .refused (.inr (.inr ?_))⟩
      intro x hx
      have hle : x.2 ≤ blocksTotal (freeBlocks pool.start tiles) := le_blocksTotal hx
      rw [htiled.remaining] at htotal
      omega
    · exact allocateWanted_spec htiled (hbit.mp hadmitted.2)

end Heap4

end FlintRTOS
