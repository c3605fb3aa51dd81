import FlintRTOS.Heap4Clients

/-!
# What an allocation returns, exactly

`pvPortMalloc` fails only when nothing fits, and a failed call changes nothing
but for the initialisation that the first call of all performs.  A block that is
given back before anything else happened restores the free list, whether it had
been split or not.
-/

namespace FlintRTOS

namespace Heap4

open Tiling

variable {pool : Pool}

/-! ### Requests -/

/-- A request plus the header, rounded up to the alignment, as a natural number. -/
def blockSizeFor (n : Nat) : Nat := (n + xHeapStructSize + 15) / 16 * 16

theorem wantedBlockSize_eq {n : Nat} (hn : n < 2 ^ 63) : wantedBlockSize n = blockSizeFor n := by
  obtain ⟨hlow, hhigh, hrounded⟩ := wantedBlockSize_spec hn
  simp only [xHeapStructSize] at hlow hhigh
  unfold blockSizeFor
  simp only [xHeapStructSize]
  omega

/-- `pvPortMalloc` works on the heap it has initialised. -/
theorem pvPortMalloc_ensureInitialised (xWantedSize : UInt64) (h : Heap)
    (hidem : ensureInitialised pool (ensureInitialised pool h) = ensureInitialised pool h) :
    pvPortMalloc pool xWantedSize (ensureInitialised pool h) = pvPortMalloc pool xWantedSize h := by
  unfold pvPortMalloc
  rw [hidem]

/-- A block is only given out for a request that passed the checks. -/
theorem request_of_pvPortMalloc {xWantedSize : UInt64} {h h' : Heap} {pv : Nat}
    (hrun : pvPortMalloc pool xWantedSize h = some (pv, h')) (hpv : pv ≠ 0) :
    xWantedSize.toNat ≠ 0 ∧ xWantedSize.toNat < 2 ^ 63 := by
  unfold pvPortMalloc at hrun
  dsimp only at hrun
  split at hrun
  · cases hrun
    exact absurd rfl hpv
  · rename_i hchecks
    rw [not_or, not_not] at hchecks
    exact ⟨hchecks.1, (and_heapAllocBit_eq_zero xWantedSize.toNat_lt).mp hchecks.2⟩

/-- In every state that can be reached the heap, initialised if need be, is tiled. -/
theorem exists_tiled {s : HeapState} (h : (allocator pool).Reach s) :
    ∃ tiles, Tiled pool (ensureInitialised pool s.heap) tiles := by
  obtain ⟨tiles, hacc⟩ := (heapInv_of_reach h).opened
  exact ⟨tiles, hacc.tiled⟩

/-- The block that `pvPortMalloc` takes is the lowest that fits. -/
structure Lowest (l : List (Nat × Nat)) (size a : Nat) : Prop where
  exists_block : ∃ n, (a, n) ∈ l ∧ size ≤ n
  le : ∀ b ∈ l, size ≤ b.2 → a ≤ b.1

/-- The first tile that fits is the lowest block that does. -/
theorem lowest_of_first {pre : List (Tile Nat)} {m w : Nat} (post : List (Tile Nat))
    (hsmall : ∀ x ∈ freeBlocks pool.start pre, x.2 < w) (hfits : w ≤ m) :
    Lowest (freeBlocks pool.start (pre ++ ⟨m, none⟩ :: post)) w (pool.start + extent pre) := by
  constructor
  · exact ⟨m, by simp [freeBlocks_append, freeBlocks_cons_none], hfits⟩
  · rintro ⟨b, n⟩ hb hn
    rw [freeBlocks_append, freeBlocks_cons_none, List.mem_append, List.mem_cons] at hb
    rcases hb with hb | hb | hb
    · exact absurd hn (Nat.not_le.mpr (hsmall _ hb))
    · cases hb
      exact Nat.le_refl _
    · have hlow := (freeBlocks_bounds hb).1
      exact (Nat.le_add_right _ _).trans hlow

/-- **Allocation is complete and fails cleanly.**  With the heap initialised, which
    the first call of all does itself: the call returns, and it returns `NULL` for
    a request of 0 bytes, with the top bit set, or larger than every free block,
    and for no other; then nothing has changed.  Otherwise the block is the lowest
    that is large enough. -/
theorem malloc_complete (pool : Pool) {s : HeapState} (hreach : (allocator pool).Reach s)
    (xWantedSize : UInt64) :
    let h₀ := ensureInitialised pool s.heap
    ∃ l, FreeList pool h₀.mem h₀.pxEnd l ∧
      ∃ pv h', pvPortMalloc pool xWantedSize s.heap = some (pv, h') ∧
        (pv = 0 ↔ xWantedSize.toNat = 0 ∨ 2 ^ 63 ≤ xWantedSize.toNat ∨
          ∀ b ∈ l, b.2 < blockSizeFor xWantedSize.toNat) ∧
        (pv = 0 → h' = h₀) ∧
        (pv ≠ 0 → Lowest l (blockSizeFor xWantedSize.toNat) (pv - xHeapStructSize)) := by
  intro h₀
  obtain ⟨tiles, htiled⟩ := exists_tiled hreach
  have hlist := htiled.freeList
  rw [← htiled.pxEnd] at hlist
  refine ⟨freeBlocks pool.start tiles, hlist, ?_⟩
  obtain ⟨pv, h', hrun, heffect⟩ := pvPortMalloc_spec xWantedSize htiled
  rw [pvPortMalloc_ensureInitialised _ _ htiled.ensureInitialised_eq] at hrun
  refine ⟨pv, h', hrun, ?_⟩
  cases heffect with
  | refused hwhy =>
    refine ⟨iff_of_true rfl ?_, fun _ => rfl, fun hne => absurd rfl hne⟩
    rcases hwhy with hzero | hbit | hsmall
    · exact Or.inl hzero
    · exact Or.inr (Or.inl hbit)
    · by_cases hbit : 2 ^ 63 ≤ xWantedSize.toNat
      · exact Or.inr (Or.inl hbit)
      · rw [wantedBlockSize_eq (Nat.not_le.mp hbit)] at hsmall
        exact Or.inr (Or.inr hsmall)
  | @allocated pre post m h' htiles hsmall hfits htiled' hminimum =>
    have hpv : pool.start + extent pre + xHeapStructSize ≠ 0 := Nat.succ_ne_zero _
    obtain ⟨hzero, hbit⟩ := request_of_pvPortMalloc hrun hpv
    rw [wantedBlockSize_eq hbit] at hsmall hfits
    have hlowest := lowest_of_first post hsmall hfits
    rw [← htiles] at hlowest
    obtain ⟨n, hmem, hn⟩ := hlowest.exists_block
    refine ⟨iff_of_false hpv ?_, fun h => absurd h hpv, fun _ => ?_⟩
    · rintro (h | h | h)
      · exact hzero h
      · exact Nat.not_le.mpr hbit h
      · exact Nat.not_le.mpr (h _ hmem) hn
    · rw [Nat.add_sub_cancel]
      exact hlowest

/-- A fragmented heap of 288 free bytes refuses 200 and serves 70 from the lower
    block. -/
theorem malloc_complete_fragmented : ∃ s, (allocator smallPool).Reach s ∧
    s.heap.xFreeBytesRemaining = 288 ∧
    (∃ h', pvPortMalloc smallPool 200 s.heap = some (0, h') ∧ h' = s.heap) ∧
    ∃ l pv h', pvPortMalloc smallPool 70 s.heap = some (pv, h') ∧ pv = 1088 ∧
      Lowest l (blockSizeFor 70) 1072 := by
  obtain ⟨s, hreach, hs⟩ := (allocator smallPool).exists_reach
    [.malloc 40, .malloc 70, .malloc 100, .free 1088]
    (fun s => decide (s.heap.xFreeBytesRemaining = 288 ∧ s.heap.pxEnd = 1488 ∧
      (pvPortMalloc smallPool 200 s.heap).map Prod.fst = some 0 ∧
      (pvPortMalloc smallPool 70 s.heap).map Prod.fst = some 1088)) (by decide +kernel)
  obtain ⟨hfree, hend, hlarge, hsmall⟩ := of_decide_eq_true hs
  have hopen : ensureInitialised smallPool s.heap = s.heap := if_neg (by omega)
  obtain ⟨_, _, pv, h₁, hrun, _, hkept, _⟩ := malloc_complete smallPool hreach 200
  obtain ⟨l, _, pv', h₂, hrun', _, _, hlowest⟩ := malloc_complete smallPool hreach 70
  rw [hrun] at hlarge
  rw [hrun'] at hsmall
  cases hlarge
  cases hsmall
  rw [hopen] at hkept
  exact ⟨s, hreach, hfree, ⟨h₁, hrun, hkept rfl⟩, l, _, h₂, hrun', rfl, hlowest (by decide)⟩

/-- The first call of all, for 0 bytes, returns `NULL` and sets the counter. -/
theorem first_malloc_initialises : (allocator smallPool).Reach (allocator smallPool).init ∧
    ∃ h', pvPortMalloc smallPool 0 (allocator smallPool).init.heap = some (0, h') ∧
      (allocator smallPool).init.heap.xFreeBytesRemaining = 0 ∧ h'.xFreeBytesRemaining = 480 ∧
      h'.mem smallPool.xStart ≠ (allocator smallPool).init.heap.mem smallPool.xStart :=
  ⟨.init, _, rfl, rfl, rfl, by decide⟩

/-! ### Giving back at once -/

/-- Freeing what was just allocated restores the tiles. -/
theorem MallocEffect.free {h h' : Heap} {tiles : List (Tile Nat)} {r pv : Nat}
    (heffect : MallocEffect pool h tiles r pv h') (hsep : Separated tiles) (hpv : pv ≠ 0) :
    ∃ h'', vPortFree pool pv h' = some h'' ∧ Tiled pool h'' tiles := by
  cases heffect with
  | refused => exact absurd rfl hpv
  | @allocated pre post m h' htiles hsmall hfits htiled hminimum =>
    subst htiles
    obtain ⟨rest, hcarve⟩ := exists_carve_eq_cons (xHeapStructSize * 2) (wantedBlockSize r) m r
    have hback := release_carve hsep hfits hcarve
    rw [hcarve, List.cons_append] at htiled
    obtain ⟨h'', hfree, htiled'', -⟩ := vPortFree_spec htiled
    rw [hback] at htiled''
    exact ⟨h'', hfree, htiled''⟩

end Heap4

end FlintRTOS
