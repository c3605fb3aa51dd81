import FlintRTOS.Machine
import Mathlib.Algebra.Order.Ring.Nat

/-!
# The heap that never frees

`heap_1.c`: one static pool and the offset of its next free byte.  Requests are rounded
up to the alignment and given out one after the other.  Both the rounding and the test
against the size of the pool are done on `size_t`, modulo `2 ^ 64`.

`NoWrap` is the requests on which neither wraps.  As long as all requests meet it the
blocks handed out lie in the pool one behind the other; a single request that does not
is handed a block that leaves the pool.
-/

namespace FlintRTOS.Heap1

def portByteAlignment : UInt64 := 16

def heapAlignMask : UInt64 := portByteAlignment - 1

/-- The size of `ucHeap`, an object of the address space. -/
structure Pool where
  configTotalHeapSize : UInt64
  total_lt : configTotalHeapSize.toNat < 2 ^ 63

/-- `xWantedSize` as it is tested against the pool. -/
def aligned (xWantedSize : UInt64) : UInt64 :=
  if xWantedSize &&& heapAlignMask ≠ 0 then
    xWantedSize + (portByteAlignment - (xWantedSize &&& heapAlignMask))
  else xWantedSize

/-- The offset of the block in `ucHeap`, `none` for `NULL`, and `xNextFreeByte`. -/
def pvPortMalloc (pool : Pool) (xWantedSize xNextFreeByte : UInt64) : Option UInt64 × UInt64 :=
  let xWantedSize := aligned xWantedSize
  if xNextFreeByte + xWantedSize ≤ pool.configTotalHeapSize then
    (some xNextFreeByte, xNextFreeByte + xWantedSize)
  else (none, xNextFreeByte)

/-! ### Requests one after the other -/

/-- A result with the size that was asked for. -/
structure Block where
  start : Nat
  size : Nat
deriving DecidableEq, Repr

/-- The bytes of the block. -/
def Block.Covers (b : Block) (i : Nat) : Prop := b.start ≤ i ∧ i < b.start + b.size

instance (b : Block) (i : Nat) : Decidable (b.Covers i) := inferInstanceAs (Decidable (_ ∧ _))

/-- The next free byte and the blocks handed out so far, latest first. -/
structure State where
  xNextFreeByte : UInt64
  blocks : List Block
deriving DecidableEq, Repr

def State.malloc (pool : Pool) (s : State) (xWantedSize : UInt64) : State :=
  match pvPortMalloc pool xWantedSize s.xNextFreeByte with
  | (some p, next) => ⟨next, ⟨p.toNat, xWantedSize.toNat⟩ :: s.blocks⟩
  | (none, next) => ⟨next, s.blocks⟩

/-- Any requests, in any order. -/
def heap1 (pool : Pool) : Machine State UInt64 where
  init := ⟨0, []⟩
  guard _ _ := True
  exec s xWantedSize := some (s.malloc pool xWantedSize)

instance (pool : Pool) (s : State) (n : UInt64) : Decidable ((heap1 pool).guard s n) :=
  inferInstanceAs (Decidable True)

/-- Every block lies in the pool and no two have a byte in common. -/
structure Sound (pool : Pool) (s : State) : Prop where
  inside : ∀ b ∈ s.blocks, b.start + b.size ≤ pool.configTotalHeapSize.toNat
  disjoint : s.blocks.Pairwise fun b c => ∀ i, ¬ (b.Covers i ∧ c.Covers i)

/-! ### Rounding -/

/-- The least multiple of the alignment that is not below the size. -/
def roundedUp (n : Nat) : Nat := (n + 15) / 16 * 16

theorem toNat_aligned (n : UInt64) : (aligned n).toNat = roundedUp n.toNat % 2 ^ 64 := by
  have hmask : (n &&& heapAlignMask).toNat = n.toNat % 16 := by
    rw [UInt64.toNat_and]
    exact Nat.and_two_pow_sub_one_eq_mod n.toNat 4
  have hlt := n.toNat_lt
  have hzero : n &&& heapAlignMask ≠ 0 ↔ n.toNat % 16 ≠ 0 := by
    rw [← hmask, ne_eq, ne_eq, ← UInt64.toNat_inj]
    rfl
  unfold aligned roundedUp
  simp only [hzero]
  split
  · have hsub : (portByteAlignment - (n &&& heapAlignMask)).toNat = 16 - n.toNat % 16 := by
      rw [UInt64.toNat_sub_of_le, hmask]
      · rfl
      · rw [UInt64.le_iff_toNat_le, hmask]
        exact Nat.le_of_lt (Nat.mod_lt _ (by decide))
    rw [UInt64.toNat_add, hsub]
    omega
  · omega

/-- The request does not wrap, neither when it is rounded up nor when it is added to the
    next free byte. -/
def NoWrap (s : State) (xWantedSize : UInt64) : Prop :=
  s.xNextFreeByte.toNat + roundedUp xWantedSize.toNat < 2 ^ 64

instance (s : State) (xWantedSize : UInt64) : Decidable (NoWrap s xWantedSize) :=
  inferInstanceAs (Decidable (_ < _))

/-! ### What one request does -/

/-- Everything a request does: without a wrap it is served at the next free byte or
    refused; with a wrap it is served although it leaves the pool. -/
inductive Served (pool : Pool) (s : State) (n : UInt64) : State → Prop where
  | block {next : UInt64} (hnext : next.toNat = s.xNextFreeByte.toNat + roundedUp n.toNat)
      (hfits : next ≤ pool.configTotalHeapSize) :
      Served pool s n ⟨next, ⟨s.xNextFreeByte.toNat, n.toNat⟩ :: s.blocks⟩
  | refused (hwrap : NoWrap s n) : Served pool s n s
  | wrapped {next : UInt64} (hwrap : ¬ NoWrap s n) :
      Served pool s n ⟨next, ⟨s.xNextFreeByte.toNat, n.toNat⟩ :: s.blocks⟩

variable {pool : Pool} {s : State}

theorem served_malloc (hnext : s.xNextFreeByte ≤ pool.configTotalHeapSize) (n : UInt64) :
    Served pool s n (s.malloc pool n) := by
  have hsum : (s.xNextFreeByte + aligned n).toNat =
      (s.xNextFreeByte.toNat + roundedUp n.toNat) % 2 ^ 64 := by
    rw [UInt64.toNat_add, toNat_aligned]
    omega
  have hle := UInt64.le_iff_toNat_le.mp hnext
  have htotal := pool.total_lt
  unfold State.malloc pvPortMalloc
  by_cases hwrap : NoWrap s n
  · have hwrap' : s.xNextFreeByte.toNat + roundedUp n.toNat < 2 ^ 64 := hwrap
    rw [Nat.mod_eq_of_lt hwrap'] at hsum
    by_cases hfits : s.xNextFreeByte + aligned n ≤ pool.configTotalHeapSize
    · simp only [hfits, if_true]
      exact .block hsum hfits
    · simp only [hfits, if_false]
      exact .refused hwrap
  · have hfits : s.xNextFreeByte + aligned n ≤ pool.configTotalHeapSize := by
      rw [UInt64.le_iff_toNat_le, hsum]
      unfold NoWrap roundedUp at hwrap
      unfold roundedUp
      have hlt := n.toNat_lt
      omega
    simp only [hfits, if_true]
    exact .wrapped hwrap

/-- A request that wraps is handed more bytes than the pool has left. -/
theorem wrapped_leaves_pool {n : UInt64} (hwrap : ¬ NoWrap s n) :
    ¬ s.xNextFreeByte.toNat + n.toNat ≤ pool.configTotalHeapSize.toNat := by
  have htotal := pool.total_lt
  unfold NoWrap roundedUp at hwrap
  omega

/-! ### Runs -/

/-- The blocks end before the next free byte, which is in the pool. -/
structure Inv (pool : Pool) (s : State) : Prop where
  next : s.xNextFreeByte ≤ pool.configTotalHeapSize
  below : ∀ b ∈ s.blocks, b.start + b.size ≤ s.xNextFreeByte.toNat
  disjoint : s.blocks.Pairwise fun b c => ∀ i, ¬ (b.Covers i ∧ c.Covers i)

theorem Inv.sound (h : Inv pool s) : Sound pool s :=
  ⟨fun b hb => Nat.le_trans (h.below b hb) (UInt64.le_iff_toNat_le.mp h.next), h.disjoint⟩

theorem Inv.malloc {n : UInt64} (h : Inv pool s) (hwrap : NoWrap s n) :
    Inv pool (s.malloc pool n) ∧ s.xNextFreeByte ≤ (s.malloc pool n).xNextFreeByte := by
  generalize hs' : s.malloc pool n = s'
  have hserved : Served pool s n s' := hs' ▸ served_malloc h.next n
  cases hserved with
  | @block next hnext hfits =>
    have hround : n.toNat ≤ roundedUp n.toNat := by
      unfold roundedUp
      omega
    have hmono : s.xNextFreeByte ≤ next := by
      rw [UInt64.le_iff_toNat_le]
      omega
    refine ⟨⟨hfits, ?_, ?_⟩, hmono⟩
    · intro b hb
      rcases List.mem_cons.mp hb with rfl | hb
      · simp only
        omega
      · exact Nat.le_trans (h.below b hb) (UInt64.le_iff_toNat_le.mp hmono)
    · -- the new block starts where all earlier ones have ended
      refine List.pairwise_cons.mpr ⟨?_, h.disjoint⟩
      rintro c hc i ⟨⟨hstart, _⟩, _, hend⟩
      have hbelow := h.below c hc
      simp only at hstart
      omega
  | refused => exact ⟨h, UInt64.le_refl _⟩
  | wrapped hno => exact absurd hwrap hno

theorem inv_of_reach (h : ((heap1 pool).restrict NoWrap).Reach s) : Inv pool s := by
  refine h.invariant ⟨UInt64.zero_le, nofun, List.Pairwise.nil⟩ ?_
  intro s n s' _ hinv hstep
  obtain ⟨⟨_, hexec⟩, hwrap⟩ := Machine.restrict_step.mp hstep
  cases hexec
  exact (hinv.malloc hwrap).1

/-- In every run whose requests do not wrap, the blocks lie in the pool and have no byte
    in common, and the next request keeps this and does not move the next free byte back
    if and only if it does not wrap. -/
theorem heap1_blocks_disjoint {pool : Pool} {s : State}
    (h : ((heap1 pool).restrict NoWrap).Reach s) :
    Sound pool s ∧ ∀ n s', (heap1 pool).Step s n s' →
      ((Sound pool s' ∧ s.xNextFreeByte ≤ s'.xNextFreeByte) ↔ NoWrap s n) := by
  have hinv := inv_of_reach h
  refine ⟨hinv.sound, ?_⟩
  rintro n s' ⟨_, hexec⟩
  obtain rfl : s.malloc pool n = s' := Option.some.inj hexec
  constructor
  · rintro ⟨hsound, _⟩
    by_contra hwrap
    generalize hs' : s.malloc pool n = s' at hsound
    have hserved : Served pool s n s' := hs' ▸ served_malloc hinv.next n
    cases hserved with
    | block _ hfits =>
      exact wrapped_leaves_pool hwrap (hsound.inside _ List.mem_cons_self)
    | refused hno => exact hwrap hno
    | wrapped => exact wrapped_leaves_pool hwrap (hsound.inside _ List.mem_cons_self)
  · intro hwrap
    exact ⟨(hinv.malloc hwrap).1.sound, (hinv.malloc hwrap).2⟩

/-- The pool of the unit tests. -/
def testPool : Pool := ⟨65536, by decide⟩

/-- A request that is too large is refused and the blocks around it stay apart. -/
theorem heap1_blocks_disjoint_three :
    ∃ s, ((heap1 testPool).restrict NoWrap).Reach s ∧
      s.blocks = [⟨32, 5⟩, ⟨0, 17⟩] ∧ Sound testPool s := by
  obtain ⟨s, hreach, hs⟩ := ((heap1 testPool).restrict NoWrap).exists_reach [17, 70000, 5]
    (fun s => s.blocks = [⟨32, 5⟩, ⟨0, 17⟩]) (by decide +kernel)
  exact ⟨s, hreach, of_decide_eq_true hs, (heap1_blocks_disjoint hreach).1⟩

/-- After 32 bytes a request for `2 ^ 64 - 16` moves the next free byte back, and the
    next 16 bytes are the second half of the first 32. -/
theorem heap1_wraps :
    ∃ s₁ s₂ s₃, (heap1 testPool).Reach s₁ ∧ (heap1 testPool).Step s₁ 18446744073709551600 s₂ ∧
      (heap1 testPool).Step s₂ 16 s₃ ∧ s₂.xNextFreeByte < s₁.xNextFreeByte ∧
      s₃.blocks = [⟨16, 16⟩, ⟨32, 18446744073709551600⟩, ⟨0, 32⟩] ∧
      Block.Covers ⟨16, 16⟩ 16 ∧ Block.Covers ⟨0, 32⟩ 16 ∧ ¬ Sound testPool s₃ := by
  refine ⟨⟨32, [⟨0, 32⟩]⟩, ⟨16, [⟨32, 18446744073709551600⟩, ⟨0, 32⟩]⟩,
    ⟨32, [⟨16, 16⟩, ⟨32, 18446744073709551600⟩, ⟨0, 32⟩]⟩,
    Machine.Reach.init.step (a := 32) ⟨trivial, by decide +kernel⟩, ⟨trivial, by decide +kernel⟩,
    ⟨trivial, by decide +kernel⟩, by decide, rfl, by decide, by decide, ?_⟩
  intro hsound
  obtain ⟨hfirst, _⟩ := List.pairwise_cons.mp hsound.disjoint
  exact hfirst ⟨0, 32⟩ (by decide) 16 (by decide)

end FlintRTOS.Heap1
