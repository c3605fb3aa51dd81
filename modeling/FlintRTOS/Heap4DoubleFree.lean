import FlintRTOS.Heap4Clients

/-!
# Freeing twice

`vPortFree` looks at the header in front of the pointer and does nothing unless the
allocated bit is set.  After a first free that header may be anywhere: the start
of a free block, or the inside of one that was joined from several.  It stays clear
of the bit all the same until `pvPortMalloc` gives memory out again.

The clients here are less careful than those of the allocator: they may free again
what they have freed.  A pointer freed long ago may by now point into memory that
somebody else holds, and then its header is whatever they have written there.  The
free list can be damaged by that; the header of a block freed since is not.
-/

namespace FlintRTOS

namespace Heap4

open Tiling

variable {pool : Pool}

/-! ### Headers that stay clear -/

section latch

variable {B D : Nat → Prop} {lo : Nat} {mem : Nat → BlockLink}

/-- At the places `B` the sizes lead from place to place, whether marked or not.  The
    places `D` among them are not marked, and neither is any place their links lead
    to. -/
structure Latch (B : Nat → Prop) (mem : Nat → BlockLink) (D : Nat → Prop) : Prop where
  within : ∀ a, D a → B a
  sizes : ∀ a, B a → B (a + (mem a).xBlockSize % 2 ^ 63)
  clear : ∀ a, D a → (mem a).xBlockSize < 2 ^ 63
  next : ∀ a, D a → B (links mem a) → D (links mem a)

variable {a : Nat}

theorem Latch.update (h : Latch B mem D) {link : BlockLink}
    (hsize : B a → B (a + link.xBlockSize % 2 ^ 63)) (hclear : D a → link.xBlockSize < 2 ^ 63)
    (hnext : D a → B link.pxNextFreeBlock → D link.pxNextFreeBlock) :
    Latch B (Function.update mem a link) D := by
  refine ⟨h.within, ?_, ?_, ?_⟩
  · intro x hx
    by_cases hxa : x = a
    · subst hxa
      rw [Function.update_self]
      exact hsize hx
    · rw [Function.update_of_ne hxa]
      exact h.sizes x hx
  · intro x hx
    by_cases hxa : x = a
    · subst hxa
      rw [Function.update_self]
      exact hclear hx
    · rw [Function.update_of_ne hxa]
      exact h.clear x hx
  · intro x hx
    unfold links
    by_cases hxa : x = a
    · subst hxa
      rw [Function.update_self]
      exact hnext hx
    · rw [Function.update_of_ne hxa]
      exact h.next x hx

theorem Latch.setNext (h : Latch B mem D) {p : Nat} (hnext : D a → B p → D p) :
    Latch B (setNext mem a p) D :=
  h.update (h.sizes a) (h.clear a) hnext

theorem Latch.setSize (h : Latch B mem D) {n : Nat} (hsize : B a → B (a + n % 2 ^ 63))
    (hclear : D a → n < 2 ^ 63) : Latch B (setSize mem a n) D :=
  h.update hsize hclear (h.next a)

variable (hspan : ∀ a, B a → lo ≤ a ∧ a < lo + 2 ^ 63)
include hspan

/-- An unmarked block at a place and the one its size leads to are joined. -/
theorem Latch.join (h : Latch B mem D) {b : Nat} (ha : B a) (hclear : (mem a).xBlockSize < 2 ^ 63)
    (hb : a + (mem a).xBlockSize = b) :
    B b ∧ B (a + sizeAdd (mem a).xBlockSize (mem b).xBlockSize % 2 ^ 63) ∧
      ((mem b).xBlockSize < 2 ^ 63 →
        sizeAdd (mem a).xBlockSize (mem b).xBlockSize < 2 ^ 63) := by
  have hB : B b := by
    have hlead := h.sizes a ha
    rwa [Nat.mod_eq_of_lt hclear, hb] at hlead
  have hend := h.sizes b hB
  have hlo := hspan a ha
  have hhi := hspan _ hend
  have hsum : a + sizeAdd (mem a).xBlockSize (mem b).xBlockSize % 2 ^ 63 =
      b + (mem b).xBlockSize % 2 ^ 63 := by
    unfold sizeAdd
    omega
  refine ⟨hB, hsum ▸ hend, ?_⟩
  intro hclear'
  unfold sizeAdd
  omega

theorem Latch.coalescePrevious (h : Latch B mem D) (it : Nat) {x : Nat} (hlo : lo ≤ x)
    (hhi : x < lo + 2 ^ 63) (hclear : (mem x).xBlockSize < 2 ^ 63) :
    Latch B (coalescePrevious mem it x).1 D ∧
      links (coalescePrevious mem it x).1 = links mem ∧
      ((coalescePrevious mem it x).2 = x ∨ (coalescePrevious mem it x).2 = it) ∧
      (B (coalescePrevious mem it x).2 →
        ((coalescePrevious mem it x).1 (coalescePrevious mem it x).2).xBlockSize < 2 ^ 63) := by
  unfold Heap4.coalescePrevious
  split
  · rename_i hjoin
    -- what reaches `x` from a place is no more than a span, so it is not marked
    have hit : B it → (mem it).xBlockSize < 2 ^ 63 := by
      intro hB
      have hplace := hspan it hB
      omega
    refine ⟨?_, links_setSize, .inr rfl, ?_⟩
    · apply h.setSize
      · intro hB
        exact (h.join hspan hB (hit hB) hjoin).2.1
      · intro hD
        exact (h.join hspan (h.within it hD) (h.clear it hD) hjoin).2.2 hclear
    · intro hB
      simp only [setSize_self]
      exact (h.join hspan hB (hit hB) hjoin).2.2 hclear
  · exact ⟨h, rfl, .inl rfl, fun _ => hclear⟩

theorem Latch.coalesceNext (h : Latch B mem D) (pxEnd it : Nat) {b : Nat}
    (hclear : B b → (mem b).xBlockSize < 2 ^ 63)
    (hb : D b → B (links mem it) → D (links mem it)) :
    Latch B (coalesceNext pxEnd mem it b) D := by
  unfold Heap4.coalesceNext
  dsimp only
  split
  · rename_i hjoin
    split
    · have hsize : Latch B (Heap4.setSize mem b (sizeAdd (mem b).xBlockSize
          (mem (mem it).pxNextFreeBlock).xBlockSize)) D := by
        apply h.setSize
        · intro hB
          exact (h.join hspan hB (hclear hB) hjoin).2.1
        · intro hD
          obtain ⟨hplace, -, hsum⟩ := h.join hspan (h.within b hD) (h.clear b hD) hjoin
          exact hsum (h.clear _ (hb hD hplace))
      apply hsize.setNext
      intro hD
      obtain ⟨hplace, -⟩ := h.join hspan (h.within b hD) (h.clear b hD) hjoin
      exact h.next _ (hb hD hplace)
    · rename_i hend
      apply h.setNext
      rw [← not_ne_iff.mp hend]
      exact hb
  · exact h.setNext hb

theorem Latch.insertAfter (h : Latch B mem D) (pxEnd : Nat) {it x : Nat} (hlo : lo ≤ x)
    (hhi : x < lo + 2 ^ 63) (hclear : (mem x).xBlockSize < 2 ^ 63)
    (hx : D x → B (links mem it) → D (links mem it)) (hit : D it → B x → D x) :
    Latch B (linkBlock (Heap4.coalesceNext pxEnd (Heap4.coalescePrevious mem it x).1 it
      (Heap4.coalescePrevious mem it x).2) it (Heap4.coalescePrevious mem it x).2) D := by
  obtain ⟨hprevious, hlinks, hblock, hunmarked⟩ := h.coalescePrevious hspan it hlo hhi hclear
  have hnext := by
    refine hprevious.coalesceNext hspan pxEnd it hunmarked ?_
    rw [hlinks]
    rcases hblock with hblock | hblock
    · rw [hblock]
      exact hx
    · rw [hblock]
      exact h.next it
  unfold linkBlock
  split
  · apply hnext.setNext
    rcases hblock with hblock | hblock
    · rw [hblock]
      exact hit
    · rw [hblock]
      exact fun hD _ => hD
  · exact hnext

end latch

/-! ### A free of any pointer -/

/-- The mark of the block at `x` is cleared; it may count among the clear ones, for its
    link leads nowhere. -/
theorem Latch.cleared {B D E : Nat → Prop} {mem : Nat → BlockLink} {x : Nat} (h : Latch B mem D)
    (hzero : ¬ B 0) (hE : ∀ a, E a → B a ∧ (a = x ∨ D a)) (hDE : ∀ a, D a → E a) :
    Latch B (Function.update mem x ⟨0, (mem x).xBlockSize % 2 ^ 63⟩) E := by
  have hlatch : Latch B (Function.update mem x ⟨0, (mem x).xBlockSize % 2 ^ 63⟩) D := by
    apply h.update
    · rw [Nat.mod_mod]
      exact h.sizes x
    · exact fun _ => Nat.mod_lt _ (by decide)
    · exact fun _ hB => absurd hB hzero
  refine ⟨fun a ha => (hE a ha).1, hlatch.sizes, ?_, ?_⟩
  · intro a ha
    rcases (hE a ha).2 with rfl | hD
    · rw [Function.update_self]
      exact Nat.mod_lt _ (by decide)
    · exact hlatch.clear a hD
  · intro a ha hB
    rcases (hE a ha).2 with rfl | hD
    · rw [links, Function.update_self] at hB
      exact absurd hB hzero
    · exact hDE _ (hlatch.next a hD hB)

variable {pv p : Nat} {h h' : Heap} {tiles : List (Tile Nat)} {x : Nat × Nat} {s : HeapState}
  {live : List (Nat × Nat)} {y y' : HeapState × List Nat}

/-- What `vPortFree` does to memory: nothing, or it clears the mark in front of the
    pointer and inserts the block after some other. -/
theorem vPortFree_cases (hfree : vPortFree pool pv h = some h') :
    h' = h ∨ ∃ mem it, pv ≠ 0 ∧ ¬ (h.mem (pv - xHeapStructSize)).xBlockSize < 2 ^ 63 ∧
      mem = Function.update h.mem (pv - xHeapStructSize)
        ⟨0, (h.mem (pv - xHeapStructSize)).xBlockSize % 2 ^ 63⟩ ∧
      insertionPoint mem (pv - xHeapStructSize) pool.fuel pool.xStart = some it ∧
      h'.pxEnd = h.pxEnd ∧
      h'.mem = linkBlock (coalesceNext h.pxEnd (coalescePrevious mem it (pv - xHeapStructSize)).1 it
        (coalescePrevious mem it (pv - xHeapStructSize)).2) it
        (coalescePrevious mem it (pv - xHeapStructSize)).2 := by
  rw [vPortFree] at hfree
  split at hfree
  · exact .inl (Option.some.inj hfree).symm
  · rename_i hnull
    dsimp only at hfree
    split at hfree
    · exact .inl (Option.some.inj hfree).symm
    · rename_i hmark
      right
      have hmask : 2 ^ 64 - 1 - heapAllocBit = 2 ^ 63 - 1 := by decide
      rw [freeBlock, hmask, Nat.and_two_pow_sub_one_eq_mod] at hfree
      obtain ⟨it, hit, hrest⟩ := Option.bind_eq_some_iff.mp hfree
      refine ⟨_, it, hnull, ?_, rfl, hit, ?_⟩
      · intro hclear
        apply hmark
        have hbit := (and_heapAllocBit_eq_zero (Nat.lt_trans hclear (by decide))).mpr hclear
        simp [prvBlockIsAllocated, hbit]
      · cases hrest
        exact ⟨rfl, rfl⟩

/-- Freeing any pointer leaves the clear headers clear, whatever the free list and the
    header in front of the pointer have become. -/
theorem Latch.vPortFree {B D : Nat → Prop} {lo : Nat} (hlatch : Latch B h.mem D)
    (hspan : ∀ a, B a → lo ≤ a ∧ a < lo + 2 ^ 63) (hzero : ¬ B 0) (hlo : lo ≤ pv - xHeapStructSize)
    (hhi : pv - xHeapStructSize < lo + 2 ^ 63) (hfree : vPortFree pool pv h = some h') :
    ∃ E : Nat → Prop, (∀ a, D a → E a) ∧ Latch B h'.mem E := by
  obtain rfl | ⟨mem, it, -, hmarked, hmem, -, -, hmem'⟩ := vPortFree_cases hfree
  · exact ⟨D, fun _ hD => hD, hlatch⟩
  · generalize pv - xHeapStructSize = x at *
    have hcleared : Latch B mem fun a => D a ∨ (a = x ∧ B x ∧ D it) := by
      rw [hmem]
      apply hlatch.cleared hzero
      · rintro a (hD | ⟨rfl, hB, -⟩)
        · exact ⟨hlatch.within a hD, .inr hD⟩
        · exact ⟨hB, .inl rfl⟩
      · exact fun _ hD => .inl hD
    refine ⟨fun a => D a ∨ (a = x ∧ B x ∧ D it), fun _ hD => .inl hD, ?_⟩
    rw [hmem']
    apply hcleared.insertAfter hspan _ hlo hhi
    · rw [hmem, Function.update_self]
      exact Nat.mod_lt _ (by decide)
    · rintro (hD | ⟨-, -, hit⟩)
      · exact absurd (hlatch.clear x hD) hmarked
      · exact hcleared.next it (.inl hit)
    · rintro (hit | ⟨-, -, hit⟩) hB
      · exact .inr ⟨rfl, hB, hit⟩
      · exact .inr ⟨rfl, hB, hit⟩

/-! ### The first free -/

theorem insertionPoint_mem {mem : Nat → BlockLink} {b e it p₀ : Nat} {l : List Nat}
    (hlinked : Leads (links mem) p₀ l e) (hb : b ≤ e) : ∀ {fuel p : Nat}, p ∈ p₀ :: l →
    insertionPoint mem b fuel p = some it → it ∈ p₀ :: l := by
  intro fuel
  induction fuel with
  | zero =>
    intro p _ hrun
    cases hrun
  | succ fuel ih =>
    intro p hp hrun
    rw [insertionPoint] at hrun
    split at hrun
    · rename_i hlt
      have hnext := hlinked.next_mem hp
      apply ih _ hrun
      rcases List.mem_append.mp hnext with hnext | hnext
      · exact List.mem_cons_of_mem _ hnext
      · have hend : (mem p).pxNextFreeBlock = e := List.mem_singleton.mp hnext
        omega
    · cases hrun
      exact hp

theorem Tiled.boundary_span (htiled : Tiled pool h tiles) :
    ∀ a, Boundary pool.start tiles a → pool.start ≤ a ∧ a < pool.start + 2 ^ 63 := by
  intro a ha
  have hbounds := ha.bounds
  have hextent := Pool.extent_lt htiled.covers
  omega

theorem Pool.not_boundary_zero (pool : Pool) (tiles : List (Tile Nat)) :
    ¬ Boundary pool.start tiles 0 := by
  intro h
  have hbounds := h.bounds
  have hstart := pool.start_spec
  have hnull := pool.not_null
  omega

/-- In a heap that stands for tiles the sizes lead from boundary to boundary, and the
    free blocks are not marked. -/
theorem Tiled.latch (htiled : Tiled pool h tiles) :
    Latch (Boundary pool.start tiles) h.mem
      fun a => a ∈ addresses (freeBlocks pool.start tiles) ++ [pool.endMarker] := by
  have hextent := Pool.extent_lt htiled.covers
  have hfree : ∀ x ∈ freeBlocks pool.start tiles, Boundary pool.start tiles x.1 ∧ x.2 < 2 ^ 63 := by
    rintro ⟨a, n⟩ hx
    obtain ⟨pre, post, rfl, rfl⟩ := exists_tile_of_mem_freeBlocks hx
    refine ⟨⟨pre, _, rfl, rfl⟩, ?_⟩
    simp only [extent_append, extent_cons] at hextent ⊢
    omega
  constructor
  · intro a ha
    rcases List.mem_append.mp ha with ha | ha
    · obtain ⟨x, hx, rfl⟩ := List.mem_map.mp ha
      exact (hfree x hx).1
    · rw [List.mem_singleton.mp ha, ← htiled.covers]
      exact ⟨tiles, [], (List.append_nil _).symm, rfl⟩
  · rintro a ⟨pre, post, htiles, rfl⟩
    cases post with
    | nil =>
      rw [List.append_nil] at htiles
      rw [← htiles, htiled.covers, htiled.freeList.ending, ← htiled.covers]
      exact ⟨tiles, [], (List.append_nil _).symm, rfl⟩
    | cons t post =>
      obtain ⟨n, o⟩ := t
      subst htiles
      have hn : n < 2 ^ 63 := by
        simp only [extent_append, extent_cons] at hextent
        omega
      have hsize : (h.mem (pool.start + extent pre)).xBlockSize % 2 ^ 63 = n := by
        cases o with
        | none =>
          have hheader := htiled.freeList.sizes (pool.start + extent pre, n)
            (by simp [freeBlocks_append, freeBlocks_cons_none])
          simp only at hheader
          rw [hheader, Nat.mod_eq_of_lt hn]
        | some r =>
          have hheader := htiled.headers (pool.start + extent pre, n, r)
            (by simp [heldBlocks_append, heldBlocks_cons_some])
          simp only at hheader
          rw [hheader, or_heapAllocBit hn, Nat.add_mod_left, Nat.mod_eq_of_lt hn]
      rw [hsize]
      exact ⟨pre ++ [⟨n, o⟩], post, by simp, by simp [Nat.add_assoc]⟩
  · intro a ha
    rcases List.mem_append.mp ha with ha | ha
    · obtain ⟨x, hx, rfl⟩ := List.mem_map.mp ha
      rw [htiled.freeList.sizes x hx]
      exact (hfree x hx).2
    · rw [List.mem_singleton.mp ha, htiled.freeList.ending]
      decide
  · intro a ha hB
    rcases List.mem_append.mp ha with ha | ha
    · exact htiled.freeList.linked.next_mem (List.mem_cons_of_mem _ ha)
    · rw [List.mem_singleton.mp ha, links, htiled.freeList.ending] at hB
      exact absurd hB (pool.not_boundary_zero _)

/-- The header of a block just freed is clear among the boundaries there were. -/
theorem Tiled.latch_free {pre post : List (Tile Nat)} {n r : Nat}
    (htiled : Tiled pool h (pre ++ ⟨n, some r⟩ :: post))
    (hfree : vPortFree pool (pool.start + extent pre + xHeapStructSize) h = some h') :
    ∃ D : Nat → Prop, Latch (Boundary pool.start (pre ++ ⟨n, some r⟩ :: post)) h'.mem D ∧
      D (pool.start + extent pre) := by
  have hpos := fun t ht => (htiled.sizes t ht).1
  have hlatch := htiled.latch
  have hcovers := htiled.covers
  have hnpos : 0 < n := hpos ⟨n, some r⟩ (by simp)
  simp only [extent_append, extent_cons] at hcovers
  obtain rfl | ⟨mem, it, -, hmarked, hmem, hit, -, hmem'⟩ := vPortFree_cases hfree
  · -- a free that does nothing is not the first
    obtain ⟨h'', hfree', -, -, -, hclear⟩ := vPortFree_spec htiled
    obtain rfl := Option.some.inj (hfree.symm.trans hfree')
    have hheader := htiled.headers (pool.start + extent pre, n, r)
      (by simp [heldBlocks_append, heldBlocks_cons_some])
    have hclear' := hclear _ (.inl rfl)
    rw [hheader, or_heapAllocBit htiled.size_lt] at hclear'
    omega
  · rw [Nat.add_sub_cancel] at hmarked hmem hit hmem'
    have hcleared : Latch (Boundary pool.start (pre ++ ⟨n, some r⟩ :: post)) mem
        fun a => a = pool.start + extent pre ∨
          a ∈ addresses (freeBlocks pool.start (pre ++ ⟨n, some r⟩ :: post)) ++
            [pool.endMarker] := by
      rw [hmem]
      apply hlatch.cleared (pool.not_boundary_zero _)
      · rintro a (rfl | hD)
        · exact ⟨⟨pre, _, rfl, rfl⟩, .inl rfl⟩
        · exact ⟨hlatch.within a hD, .inr hD⟩
      · exact fun _ hD => .inr hD
    have hlist : FreeList pool mem pool.endMarker
        (freeBlocks pool.start (pre ++ ⟨n, some r⟩ :: post)) := by
      apply freeList_within hpos htiled.covers htiled.freeList
      intro x hx
      rw [hmem]
      apply Function.update_of_ne
      omega
    refine ⟨fun a => a = pool.start + extent pre ∨
      a ∈ addresses (freeBlocks pool.start (pre ++ ⟨n, some r⟩ :: post)) ++ [pool.endMarker],
      ?_, .inl rfl⟩
    rw [hmem']
    apply hcleared.insertAfter htiled.boundary_span
    · omega
    · exact (htiled.boundary_span _ ⟨pre, _, rfl, rfl⟩).2
    · rw [hmem, Function.update_self]
      exact Nat.mod_lt _ (by decide)
    · intro _ _
      have hmem_it := insertionPoint_mem hlist.linked (by omega) (List.mem_cons_self ..) hit
      exact .inr (hlist.linked.next_mem hmem_it)
    · exact fun _ _ => .inl rfl

theorem vPortFree_of_clear (hclear : (h.mem (pv - xHeapStructSize)).xBlockSize < 2 ^ 63) :
    vPortFree pool pv h = some h := by
  have hbit := (and_heapAllocBit_eq_zero (Nat.lt_trans hclear (by decide))).mpr hclear
  have hmark : prvBlockIsAllocated (h.mem (pv - xHeapStructSize)) = false := by
    simp [prvBlockIsAllocated, hbit]
  rw [vPortFree]
  split
  · rfl
  · dsimp only
    rw [hmark, Bool.not_false, if_pos rfl]

/-! ### Clients that free again -/

/-- The pointers that have been freed, after one more call. -/
def noteFreed (freed : List Nat) (s : HeapState) : HeapOp → List Nat
  | .free pv => if ∃ x ∈ s.live, x.1 = pv then pv :: freed else freed
  | _ => freed

def HeapOp.FreesAgain (freed : List Nat) : HeapOp → Prop
  | .free pv => pv ∈ freed
  | _ => False

instance (freed : List Nat) : (op : HeapOp) → Decidable (op.FreesAgain freed)
  | .free pv => inferInstanceAs (Decidable (pv ∈ freed))
  | .malloc _ => inferInstanceAs (Decidable False)
  | .getFreeHeapSize => inferInstanceAs (Decidable False)
  | .getMinimumEverFreeHeapSize => inferInstanceAs (Decidable False)
  | .write _ _ => inferInstanceAs (Decidable False)

/-- The allocator under clients that may also free what has been freed before. -/
def doubleFree (pool : Pool) : Machine (HeapState × List Nat) HeapOp :=
  { (allocator pool).ghost [] noteFreed with
    guard := fun x op => op.Admitted x.1 ∨ op.FreesAgain x.2 }

instance (pool : Pool) (x : HeapState × List Nat) (op : HeapOp) :
    Decidable ((doubleFree pool).guard x op) :=
  inferInstanceAs (Decidable (op.Admitted x.1 ∨ op.FreesAgain x.2))

/-- A pointer whose header lies in the pool. -/
def InPool (pool : Pool) (pv : Nat) : Prop :=
  pool.start ≤ pv - xHeapStructSize ∧ pv - xHeapStructSize < pool.start + 2 ^ 63

theorem Accounted.inPool (hacc : Accounted pool s tiles) (hx : x ∈ s.live) : InPool pool x.1 := by
  obtain ⟨pre, post, n, rfl, hpv⟩ := hacc.exists_tile hx
  rw [InPool, hpv, Nat.add_sub_cancel]
  exact hacc.tiled.boundary_span _ ⟨pre, _, rfl, rfl⟩

theorem HeapInv.inPool (h : HeapInv pool s) (hx : x ∈ s.live) : InPool pool x.1 := by
  obtain ⟨-, hlive, -⟩ | ⟨tiles, hacc⟩ := h
  · rw [hlive] at hx
    cases hx
  · exact hacc.inPool hx

theorem mem_noteFreed {freed : List Nat} {op : HeapOp} (h : pv ∈ noteFreed freed s op) :
    pv ∈ freed ∨ ∃ x ∈ s.live, x.1 = pv := by
  cases op with
  | free pv' =>
    rw [noteFreed] at h
    split at h
    · rename_i hlive
      rcases List.mem_cons.mp h with rfl | h
      · exact .inr hlive
      · exact .inl h
    · exact .inl h
  | malloc => exact .inl h
  | getFreeHeapSize => exact .inl h
  | getMinimumEverFreeHeapSize => exact .inl h
  | write => exact .inl h

theorem inPool_of_freed {x : HeapState × List Nat}
    (h : ((allocator pool).ghost [] noteFreed).Reach x) : ∀ pv ∈ x.2, InPool pool pv := by
  refine h.invariant (P := fun x => ∀ pv ∈ x.2, InPool pool pv) ?_ ?_
  · intro pv hpv
    cases hpv
  · intro x op y hreach hfreed hstep pv hpv
    obtain ⟨-, hnote⟩ := Machine.ghost_step.mp hstep
    rw [hnote] at hpv
    rcases mem_noteFreed hpv with hpv | ⟨v, hv, rfl⟩
    · exact hfreed pv hpv
    · exact (heapInv_of_reach hreach.of_ghost).inPool hv

/-- What holds from the first free of `p` on, for the tiles there were before it and
    the allocations that were live. -/
structure Released (pool : Pool) (tiles : List (Tile Nat)) (live : List (Nat × Nat)) (p : Nat)
    (y : HeapState × List Nat) : Prop where
  opened : y.1.heap.pxEnd ≠ 0
  latched : ∃ D, Latch (Boundary pool.start tiles) y.1.heap.mem D ∧ D (p - xHeapStructSize)
  live : ∀ x ∈ y.1.live, x ∈ live
  freed : ∀ pv ∈ y.2, InPool pool pv

theorem Released.same (h : Released pool tiles live p y) (hheap : y'.1.heap = y.1.heap)
    (hlive : y'.1.live = y.1.live) (hfreed : y'.2 = y.2) : Released pool tiles live p y' :=
  ⟨hheap ▸ h.opened, hheap ▸ h.latched, hlive ▸ h.live, hfreed ▸ h.freed⟩

theorem HeapState.free_cases {s' : HeapState} (h : s.free pool pv = some s') :
    vPortFree pool pv s.heap = some s'.heap ∧ ∀ x ∈ s'.live, x ∈ s.live := by
  obtain ⟨h', hfree, hs'⟩ := Option.bind_eq_some_iff.mp h
  cases hs'
  exact ⟨hfree, fun x hx => (List.mem_filter.mp hx).1⟩

theorem Released.free (hacc : Accounted pool s tiles) (h : Released pool tiles s.live p y)
    (hguard : (doubleFree pool).guard y (.free pv))
    (hexec : (doubleFree pool).exec y (.free pv) = some y') : Released pool tiles s.live p y' := by
  obtain ⟨s', hfree, rfl⟩ := Option.map_eq_some_iff.mp hexec
  obtain ⟨hfree, hlive⟩ := HeapState.free_cases hfree
  have hpool : pv = 0 ∨ InPool pool pv := by
    rcases hguard with (hnull | ⟨x, hx, rfl⟩) | hagain
    · exact .inl hnull
    · exact .inr (hacc.inPool (h.live x hx))
    · exact .inr (h.freed pv hagain)
  obtain ⟨D, hlatch, hp⟩ := h.latched
  refine ⟨?_, ?_, fun x hx => h.live x (hlive x hx), ?_⟩
  · obtain heq | ⟨-, -, -, -, -, -, hend, -⟩ := vPortFree_cases hfree
    · show s'.heap.pxEnd ≠ 0
      rw [heq]
      exact h.opened
    · show s'.heap.pxEnd ≠ 0
      rw [hend]
      exact h.opened
  · rcases hpool with rfl | ⟨hlo, hhi⟩
    · obtain heq : y.1.heap = s'.heap := Option.some.inj hfree
      exact ⟨D, heq ▸ hlatch, hp⟩
    · obtain ⟨E, hDE, hlatch'⟩ := hlatch.vPortFree hacc.tiled.boundary_span
        (pool.not_boundary_zero _) hlo hhi hfree
      exact ⟨E, hlatch', hDE _ hp⟩
  · intro pv' (hpv' : pv' ∈ noteFreed y.2 y.1 (.free pv))
    rcases mem_noteFreed hpv' with hpv' | ⟨x, hx, rfl⟩
    · exact h.freed pv' hpv'
    · exact hacc.inPool (h.live x hx)

theorem Released.write {a : Nat} {link : BlockLink} (hacc : Accounted pool s tiles)
    (h : Released pool tiles s.live p y) (hguard : (doubleFree pool).guard y (.write a link))
    (hexec : (doubleFree pool).exec y (.write a link) = some y') :
    Released pool tiles s.live p y' := by
  obtain ⟨x, hx, hlow, hhigh⟩ | hagain := hguard
  · cases hexec
    obtain ⟨D, hlatch, hp⟩ := h.latched
    refine ⟨h.opened, ⟨D, ?_, hp⟩, h.live, h.freed⟩
    -- what a client may write is inside a block
    have hinside : ¬ Boundary pool.start tiles a := by
      intro hB
      obtain ⟨⟨b, n, r⟩, hheld, rfl⟩ := List.mem_map.mp (hacc.live.mem_iff.mp (h.live x hx))
      have hrequest := hacc.tiled.requests _ hheld
      obtain ⟨pre, post, rfl, rfl⟩ := exists_tile_of_heldBlocks hheld
      have haside := hB.aside
      simp only [allocation, xHeapStructSize] at *
      omega
    apply hlatch.update
    · exact fun hB => absurd hB hinside
    · exact fun hD => absurd (hlatch.within a hD) hinside
    · exact fun hD => absurd (hlatch.within a hD) hinside
  · cases hagain

theorem Released.step {op : HeapOp} (hacc : Accounted pool s tiles)
    (h : Released pool tiles s.live p y) (hop : ∀ n, op ≠ .malloc n)
    (hstep : (doubleFree pool).Step y op y') : Released pool tiles s.live p y' := by
  obtain ⟨hguard, hexec⟩ := hstep
  have hopened : ensureInitialised pool y.1.heap = y.1.heap := if_neg h.opened
  cases op with
  | malloc n => exact absurd rfl (hop n)
  | free pv => exact h.free hacc hguard hexec
  | getFreeHeapSize =>
    cases hexec
    exact h.same hopened rfl rfl
  | getMinimumEverFreeHeapSize =>
    cases hexec
    exact h.same hopened rfl rfl
  | write a link => exact h.write hacc hguard hexec

/-! ### Frees that return

Damage is possible only through a pointer whose memory has been given out again.  As
long as the clients free what was live at the first free, and that as often as they
like, the heap stands for tiles and every call returns. -/

/-- The header in front of `pv` is clear, and no allocated block reaches it. -/
structure Stale (pool : Pool) (h : Heap) (tiles : List (Tile Nat)) (pv : Nat) : Prop where
  clear : (h.mem (pv - xHeapStructSize)).xBlockSize < 2 ^ 63
  outside : ∀ y ∈ heldBlocks pool.start tiles,
    pv - xHeapStructSize < y.1 ∨ y.1 + y.2.1 ≤ pv - xHeapStructSize

/-- Of the allocations `live` each is still live or stale. -/
def Settled (pool : Pool) (live : List (Nat × Nat)) (s : HeapState) : Prop :=
  ∃ tiles, Accounted pool s tiles ∧ ∀ x ∈ live, x ∈ s.live ∨ Stale pool s.heap tiles x.1

theorem Stale.not_live (hstale : Stale pool s.heap tiles pv) (hacc : Accounted pool s tiles) :
    ∀ x ∈ s.live, x.1 ≠ pv := by
  rintro x hx rfl
  obtain ⟨⟨a, n, r⟩, hheld, rfl⟩ := List.mem_map.mp (hacc.live.mem_iff.mp hx)
  have hrequest := hacc.tiled.requests _ hheld
  have hout := hstale.outside _ hheld
  simp only [allocation, xHeapStructSize] at *
  omega

/-- A free that leaves the heap alone, of a pointer that is not live. -/
theorem HeapState.free_again (hsame : vPortFree pool pv s.heap = some s.heap)
    (hdead : ∀ x ∈ s.live, x.1 ≠ pv) :
    s.free pool pv = some { s with history := record s.heap s.history } := by
  have hkept : (s.live.filter fun x => x.1 ≠ pv) = s.live := by
    rw [List.filter_eq_self]
    intro x hx
    exact decide_eq_true (hdead x hx)
  rw [HeapState.free, hsame]
  simp only [Option.bind_eq_bind, Option.bind_some, hkept]
  rfl

theorem Settled.free (h : Settled pool live s) (hpv : pv = 0 ∨ ∃ r, (pv, r) ∈ live) :
    ∃ s', s.free pool pv = some s' ∧ Settled pool live s' := by
  obtain ⟨tiles, hacc, hlive⟩ := h
  rcases hpv with rfl | ⟨r, hr⟩
  · refine ⟨_, HeapState.free_again rfl ?_, tiles, hacc.again, hlive⟩
    intro x hx
    obtain ⟨pre, post, n, -, hpv⟩ := hacc.exists_tile hx
    rw [hpv]
    exact Nat.succ_ne_zero _
  · rcases hlive _ hr with hx | hstale
    · obtain ⟨s', tiles', hrun, hacc', hheld, hclear⟩ := hacc.free hx
      refine ⟨s', hrun, tiles', hacc', ?_⟩
      obtain ⟨h', -, hs'⟩ := Option.bind_eq_some_iff.mp hrun
      cases hs'
      intro v hv
      by_cases hne : v.1 = pv
      · rw [hne]
        exact .inr ⟨hclear _ (.inl rfl), fun y hy => (hheld y hy).2⟩
      · rcases hlive v hv with hv | hold
        · exact .inl (List.mem_filter.mpr ⟨hv, decide_eq_true hne⟩)
        · exact .inr ⟨hclear _ (.inr hold.clear), fun y hy => hold.outside y (hheld y hy).1⟩
    · exact ⟨_, HeapState.free_again (vPortFree_of_clear hstale.clear) (hstale.not_live hacc),
        tiles, hacc.again, hlive⟩

theorem Settled.write (h : Settled pool live s) {a : Nat} (hx : x ∈ s.live) (hlow : x.1 ≤ a)
    (hhigh : a < x.1 + x.2) (link : BlockLink) :
    Settled pool live { s with heap := { s.heap with mem := Function.update s.heap.mem a link } } := by
  obtain ⟨tiles, hacc, hlive⟩ := h
  refine ⟨tiles, hacc.write hx hlow hhigh link, ?_⟩
  intro v hv
  refine (hlive v hv).imp_right fun hstale => ⟨?_, hstale.outside⟩
  obtain ⟨⟨b, n, r⟩, hheld, rfl⟩ := List.mem_map.mp (hacc.live.mem_iff.mp hx)
  have hrequest := hacc.tiled.requests _ hheld
  have hout := hstale.outside _ hheld
  have hne : v.1 - xHeapStructSize ≠ a := by
    simp only [allocation, xHeapStructSize] at *
    omega
  show (Function.update s.heap.mem a link (v.1 - xHeapStructSize)).xBlockSize < 2 ^ 63
  rw [Function.update_of_ne hne]
  exact hstale.clear

theorem Settled.after {live : List (Nat × Nat)} {s : HeapState} (h : Settled pool live s) :
    Settled pool live (s.after pool (ensureInitialised pool s.heap)) := by
  obtain ⟨tiles, hacc, hlive⟩ := h
  rw [HeapState.after, hacc.tiled.ensureInitialised_eq]
  exact ⟨tiles, hacc.again.again, hlive⟩

theorem Settled.step {op : HeapOp} (h : Settled pool live y.1) (hmalloc : ∀ n, op ≠ .malloc n)
    (hfree : ∀ pv, op = .free pv → pv = 0 ∨ ∃ r, (pv, r) ∈ live)
    (hstep : (doubleFree pool).Step y op y') : Settled pool live y'.1 := by
  obtain ⟨hguard, hexec⟩ := hstep
  obtain ⟨s', hrun, rfl⟩ := Option.map_eq_some_iff.mp hexec
  cases op with
  | malloc n => exact absurd rfl (hmalloc n)
  | free pv =>
    obtain ⟨s'', hrun', hsettled⟩ := h.free (hfree pv rfl)
    obtain rfl := Option.some.inj (hrun'.symm.trans hrun)
    exact hsettled
  | getFreeHeapSize =>
    cases hrun
    exact h.after
  | getMinimumEverFreeHeapSize =>
    cases hrun
    exact h.after
  | write a link =>
    cases hrun
    rcases hguard with ⟨x, hx, hlow, hhigh⟩ | hagain
    · exact h.write hx hlow hhigh link
    · cases hagain

/-- Once `p` has been freed, freeing it again leaves the heap as it is, the free list,
    the counters and all headers, until the next `pvPortMalloc`: whatever has been
    freed in between, for the first time or again, and whatever the clients have
    written to memory of theirs.  The calls in between return as long as they are
    of pointers that were live before. -/
theorem double_free_harmless (pool : Pool) {x y : HeapState × List Nat} {p r : Nat}
    {ops : List HeapOp} (hreach : ((allocator pool).ghost [] noteFreed).Reach x)
    (hlive : (p, r) ∈ x.1.live) (hmalloc : ∀ n, HeapOp.malloc n ∉ ops)
    (hrun : (doubleFree pool).Run x (.free p :: ops) y) :
    vPortFree pool p y.1.heap = some y.1.heap ∧
      ((∀ pv, HeapOp.free pv ∈ ops → pv = 0 ∨ ∃ r, (pv, r) ∈ x.1.live) →
        ∀ pv, (pv = 0 ∨ ∃ r, (pv, r) ∈ x.1.live) → ∃ h, vPortFree pool pv y.1.heap = some h) := by
  obtain ⟨-, hnone, -⟩ | ⟨tiles, hacc⟩ := heapInv_of_reach hreach.of_ghost
  · rw [hnone] at hlive
    cases hlive
  obtain ⟨x', hfirst, hrest⟩ := hrun.head
  constructor
  · have hreleased : Released pool tiles x.1.live p x' := by
      obtain ⟨s', hfree, rfl⟩ := Option.map_eq_some_iff.mp hfirst.2
      obtain ⟨s'', tiles', hfree', hacc', -⟩ := hacc.free hlive
      obtain rfl := Option.some.inj (hfree'.symm.trans hfree)
      obtain ⟨hfree, hkept⟩ := HeapState.free_cases hfree
      obtain ⟨pre, post, n, rfl, hpv⟩ := hacc.exists_tile hlive
      simp only at hpv
      subst hpv
      refine ⟨hacc'.tiled.pxEnd_ne_zero, ?_, hkept, ?_⟩
      · rw [Nat.add_sub_cancel]
        exact hacc.tiled.latch_free hfree
      · intro pv (hpv : pv ∈ noteFreed x.2 x.1 (.free (pool.start + extent pre + xHeapStructSize)))
        rcases mem_noteFreed hpv with hpv | ⟨v, hv, rfl⟩
        · exact inPool_of_freed hreach pv hpv
        · exact hacc.inPool hv
    have hend : Released pool tiles x.1.live p y := by
      apply hrest.invariant hreleased
      intro s op s' hop hinv hst
      apply hinv.step hacc _ hst
      rintro n rfl
      exact hmalloc n hop
    obtain ⟨D, hlatch, hp⟩ := hend.latched
    exact vPortFree_of_clear (hlatch.clear _ hp)
  · intro hfrees pv hpv
    have hend : Settled pool x.1.live y.1 := by
      refine hrun.invariant (P := fun z => Settled pool x.1.live z.1)
        ⟨tiles, hacc, fun v hv => .inl hv⟩ ?_
      intro s op s' hop hinv hst
      rcases List.mem_cons.mp hop with rfl | hop
      · refine hinv.step (fun _ => HeapOp.noConfusion) ?_ hst
        intro pv' heq
        cases heq
        exact .inr ⟨r, hlive⟩
      · refine hinv.step ?_ ?_ hst
        · rintro n rfl
          exact hmalloc n hop
        · rintro pv' rfl
          exact hfrees pv' hop
    obtain ⟨s', hfree, -⟩ := hend.free hpv
    exact ⟨s'.heap, (HeapState.free_cases hfree).1⟩

/-- The allocation at 1024 reaches over the header of 1088, freed before it, and its
    client has written a mark there.  After 1248 the pointer 1088 is freed again, which
    puts 32 bytes of that allocation on the free list; 1248 is still safe to free
    again. -/
theorem double_free_harmless_overrun : ∃ x y : HeapState × List Nat,
    ((allocator smallPool).ghost [] noteFreed).Reach x ∧
    (doubleFree smallPool).Run x [.free 1248, .free 1088, .free 1248] y ∧
    y.1.heap.xFreeBytesRemaining = 288 ∧ vPortFree smallPool 1248 y.1.heap = some y.1.heap := by
  have hruns : (((allocator smallPool).ghost [] noteFreed).runList (⟨Heap.boot, [], []⟩, [])
      [.malloc 40, .malloc 40, .free 1024, .free 1088, .malloc 200, .malloc 70,
        .write 1072 ⟨0, 2 ^ 63 + 32⟩]).any (fun x => decide ((1248, 70) ∈ x.1.live) &&
      ((doubleFree smallPool).runList x [.free 1248, .free 1088, .free 1248]).any
        fun y => decide (y.1.heap.xFreeBytesRemaining = 288)) = true := by
    decide +kernel
  obtain ⟨x, hreach, hx⟩ := (Option.any_eq_true _ _).mp hruns
  obtain ⟨hlive, hrest⟩ := (Bool.and_eq_true_iff.mp hx)
  obtain ⟨y, hrun, hy⟩ := (Option.any_eq_true _ _).mp hrest
  have hreach := Machine.Reach.init.run (Machine.run_of_runList hreach)
  have hrun := Machine.run_of_runList hrun
  refine ⟨x, y, hreach, hrun, of_decide_eq_true hy, ?_⟩
  exact (double_free_harmless smallPool hreach (of_decide_eq_true hlive) (by simp) hrun).1

end Heap4

end FlintRTOS
