import Mathlib.Data.Nat.ModEq
import Mathlib.Logic.Function.Basic

/-!
# Circular buffers

A bounded double-ended sequence kept in `size` slots.  `read` is the slot before
the front, so that an element is taken by advancing it and put in front by
filling it and stepping back; the back is `count` slots further on.  Positions
are counted modulo `size`.

`contents` is the sequence a buffer stands for, and each operation has one lemma
that says what it does to `contents` and one that says where the write cursor
goes.
-/

@[ext] structure CircularBuffer (α : Type) where
  size : Nat
  slot : Nat → α
  read : Nat
  count : Nat
  read_lt : read < size
  count_le : count ≤ size

namespace CircularBuffer

variable {α : Type}

/-! ### Cursor arithmetic -/

/-- The cursor one slot further on, wrapping at the end. -/
def next (size i : Nat) : Nat := if i + 1 < size then i + 1 else 0

/-- The cursor one slot back, wrapping at the start. -/
def prev (size i : Nat) : Nat := if i = 0 then size - 1 else i - 1

theorem next_mod {size : Nat} (hsize : 0 < size) (x : Nat) :
    next size (x % size) = (x + 1) % size := by
  have hlt := Nat.mod_lt x hsize
  rw [← Nat.mod_add_mod, next]
  split
  · rename_i hin
    rw [Nat.mod_eq_of_lt hin]
  · have hend : x % size + 1 = size := by omega
    rw [hend, Nat.mod_self]

theorem next_lt {size i : Nat} (hi : i < size) : next size i < size := by
  unfold next
  split
  · assumption
  · omega

theorem prev_lt {size i : Nat} (hi : i < size) : prev size i < size := by
  unfold prev
  split
  · omega
  · omega

theorem prev_add_mod {size i : Nat} (hi : i < size) (x : Nat) :
    (prev size i + 1 + x) % size = (i + x) % size := by
  unfold prev
  split
  · rename_i hzero
    have hfull : size - 1 + 1 + x = x + size := by omega
    rw [hfull, Nat.add_mod_right, hzero, Nat.zero_add]
  · have hback : i - 1 + 1 + x = i + x := by omega
    rw [hback]

theorem add_mod_inj {size a i j : Nat} (hi : i < size) (hj : j < size)
    (h : (a + i) % size = (a + j) % size) : i = j :=
  Nat.ModEq.eq_of_lt_of_lt (Nat.ModEq.add_left_cancel' a h) hi hj

/-! ### The sequence -/

variable (b : CircularBuffer α)

theorem size_pos : 0 < b.size := Nat.lt_of_le_of_lt (Nat.zero_le _) b.read_lt

/-- The slot of the `i`-th element from the front. -/
def index (i : Nat) : Nat := (b.read + 1 + i) % b.size

/-- The slot behind the last element. -/
def write : Nat := b.index b.count

/-- The elements from front to back. -/
def contents : List α := (List.range b.count).map fun i => b.slot (b.index i)

theorem index_lt (i : Nat) : b.index i < b.size := Nat.mod_lt _ b.size_pos

theorem next_read : next b.size b.read = b.index 0 := by
  have h := next_mod b.size_pos b.read
  rwa [Nat.mod_eq_of_lt b.read_lt] at h

theorem next_write : next b.size b.write = b.index (b.count + 1) :=
  next_mod b.size_pos _

theorem index_ne {i j : Nat} (hi : i < b.size) (hj : j < b.size) (hne : i ≠ j) :
    b.index i ≠ b.index j :=
  fun h => hne (add_mod_inj hi hj h)

/-- Only a full buffer reaches the read cursor again. -/
theorem index_ne_read {i : Nat} (hi : i + 1 < b.size) : b.index i ≠ b.read := by
  intro h
  rw [index, Nat.add_assoc, ← Nat.mod_eq_of_lt b.read_lt, Nat.mod_add_mod] at h
  have hzero : 1 + i = 0 := add_mod_inj (by omega) b.size_pos h
  omega

@[simp] theorem length_contents : b.contents.length = b.count := by
  simp [contents]

/-- What is written outside the occupied slots does not change the sequence. -/
theorem map_slot_update {n w : Nat} {f : Nat → Nat} (x : α)
    (hne : ∀ i, i < n → f i ≠ w) :
    (List.range n).map (fun i => Function.update b.slot w x (f i)) =
      (List.range n).map fun i => b.slot (f i) := by
  refine List.map_congr_left ?_
  intro i hi
  exact Function.update_of_ne (hne i (List.mem_range.mp hi)) _ _

/-! ### Operations -/

/-- Fill the slot behind the last element. -/
def pushBack (x : α) (hspace : b.count < b.size) : CircularBuffer α where
  size := b.size
  slot := Function.update b.slot b.write x
  read := b.read
  count := b.count + 1
  read_lt := b.read_lt
  count_le := hspace

theorem contents_pushBack (x : α) (hspace : b.count < b.size) :
    (b.pushBack x hspace).contents = b.contents ++ [x] := by
  have hold : (List.range b.count).map (fun i => Function.update b.slot b.write x (b.index i)) =
      b.contents := by
    refine b.map_slot_update x ?_
    intro i hi
    exact b.index_ne (by omega) hspace (by omega)
  rw [contents, pushBack, List.range_succ, List.map_append]
  change (List.range b.count).map (fun i => Function.update b.slot b.write x (b.index i)) ++
    [Function.update b.slot b.write x b.write] = _
  rw [hold, Function.update_self]

theorem write_pushBack (x : α) (hspace : b.count < b.size) :
    (b.pushBack x hspace).write = next b.size b.write :=
  b.next_write.symm

/-- Fill the slot before the front and step back. -/
def pushFront (x : α) (hspace : b.count < b.size) : CircularBuffer α where
  size := b.size
  slot := Function.update b.slot b.read x
  read := prev b.size b.read
  count := b.count + 1
  read_lt := prev_lt b.read_lt
  count_le := hspace

theorem index_pushFront (x : α) (hspace : b.count < b.size) (i : Nat) :
    (b.pushFront x hspace).index i = (b.read + i) % b.size :=
  prev_add_mod b.read_lt i

theorem contents_pushFront (x : α) (hspace : b.count < b.size) :
    (b.pushFront x hspace).contents = x :: b.contents := by
  have hfirst : (b.pushFront x hspace).index 0 = b.read := by
    rw [index_pushFront, Nat.add_zero, Nat.mod_eq_of_lt b.read_lt]
  have hshift : ∀ i, (b.pushFront x hspace).index (i + 1) = b.index i := by
    intro i
    rw [index_pushFront, index, Nat.add_assoc, Nat.add_comm 1 i]
  have hold : (List.range b.count).map (fun i => Function.update b.slot b.read x (b.index i)) =
      b.contents := by
    refine b.map_slot_update x ?_
    intro i hi
    exact b.index_ne_read (by omega)
  rw [contents]
  change (List.range (b.count + 1)).map (fun i => Function.update b.slot b.read x
    ((b.pushFront x hspace).index i)) = _
  rw [List.range_succ_eq_map, List.map_cons, List.map_map, hfirst, Function.update_self]
  simp only [Function.comp_def, Nat.succ_eq_add_one, hshift]
  rw [hold]

theorem write_pushFront (x : α) (hspace : b.count < b.size) :
    (b.pushFront x hspace).write = b.write := by
  rw [write, index_pushFront]
  change (b.read + (b.count + 1)) % b.size = (b.read + 1 + b.count) % b.size
  rw [Nat.add_assoc, Nat.add_comm 1]

/-- Advance over the front element. -/
def popFront : CircularBuffer α where
  size := b.size
  slot := b.slot
  read := next b.size b.read
  count := b.count - 1
  read_lt := by rw [next_read]; exact b.index_lt 0
  count_le := Nat.le_trans (Nat.sub_le _ _) b.count_le

theorem index_popFront (i : Nat) : b.popFront.index i = b.index (i + 1) := by
  change (next b.size b.read + 1 + i) % b.size = _
  rw [next_read, index, index, Nat.add_assoc, Nat.mod_add_mod, Nat.add_zero]
  congr 1
  omega

/-- The front element is the one in the advanced slot. -/
theorem contents_popFront (hsome : 0 < b.count) :
    b.contents = b.slot (next b.size b.read) :: b.popFront.contents := by
  have hcount : b.count = b.count - 1 + 1 := by omega
  rw [contents, hcount, List.range_succ_eq_map, List.map_cons, List.map_map, next_read]
  simp only [Function.comp_def, Nat.succ_eq_add_one, contents, index_popFront]
  rfl

theorem write_popFront (hsome : 0 < b.count) : b.popFront.write = b.write := by
  rw [write, index_popFront]
  change b.index (b.count - 1 + 1) = b.index b.count
  congr 1
  omega

end CircularBuffer
